import AttestedCompute.Lib.Intervals

/-!
# Cutting a stretch of integers into batches

The half-open stretch from `start` to `stop` is cut, from its left end on, into pieces of
`size` integers, of which only the last may be shorter. A cut at a multiple of `size` from the
left end is one the batches make anyway (`cut_append`), so a stretch stored in several parts
needs no more batches than a whole one when every inner boundary is such a multiple.
-/

namespace Batches

/-- The number of batches of a stretch. -/
def count (size start stop : ℤ) : ℕ := ((stop - start + size - 1) / size).toNat

/-- The batches of a stretch, each with its start and its end. -/
def cut (size start stop : ℤ) : List (ℤ × ℤ) :=
  (List.range (count size start stop)).map fun i : ℕ =>
    (start + (i : ℤ) * size, min stop (start + ((i : ℤ) + 1) * size))

variable {size start stop : ℤ}

@[simp] theorem length_cut : (cut size start stop).length = count size start stop := by
  simp [cut]

theorem count_eq_zero (hsize : 0 < size) (h : stop ≤ start) : count size start stop = 0 := by
  have hlt : (stop - start + size - 1) / size < 1 := Int.ediv_lt_of_lt_mul hsize (by omega)
  unfold count
  omega

theorem count_succ (hsize : 0 < size) (h : start < stop) :
    count size start stop = count size (start + size) stop + 1 := by
  have hstep : stop - start + size - 1 = (stop - (start + size) + size - 1) + 1 * size := by ring
  have hnonneg : 0 ≤ (stop - (start + size) + size - 1) / size :=
    Int.ediv_nonneg (by omega) hsize.le
  unfold count
  rw [hstep, Int.add_mul_ediv_right _ _ hsize.ne']
  omega

theorem cut_eq_nil (hsize : 0 < size) (h : stop ≤ start) : cut size start stop = [] := by
  rw [← List.length_eq_zero_iff, length_cut, count_eq_zero hsize h]

/-- The first batch, and the batches of what it leaves. -/
theorem cut_eq_cons (hsize : 0 < size) (h : start < stop) :
    cut size start stop =
      (start, min stop (start + size)) :: cut size (min stop (start + size)) stop := by
  by_cases hlast : stop ≤ start + size
  · rw [min_eq_left hlast, cut_eq_nil hsize le_rfl]
    have hone : count size start stop = 1 := by
      rw [count_succ hsize h, count_eq_zero hsize hlast]
    simp [cut, hone, hlast]
  · have hshift : ∀ x : ℤ, start + (x + 1) * size = start + size + x * size := fun x => by ring
    rw [min_eq_right (by omega)]
    unfold cut
    rw [count_succ hsize h, List.range_succ_eq_map, List.map_cons, List.map_map]
    congr 1
    · simp [min_eq_right (show start + size ≤ stop by omega)]
    · refine List.map_congr_left fun i _ => ?_
      simp only [Function.comp_apply, Nat.cast_succ, hshift]

/-- **A boundary at a multiple of the batch size costs no batch.** -/
theorem cut_append (hsize : 0 < size) {middle : ℤ} (hdvd : size ∣ middle - start)
    (hstart : start ≤ middle) (hstop : middle ≤ stop) :
    cut size start stop = cut size start middle ++ cut size middle stop := by
  obtain ⟨k, hk⟩ := hdvd
  lift k to ℕ using nonneg_of_mul_nonneg_right (by omega) hsize
  induction k generalizing start with
  | zero =>
      have heq : middle = start := by simpa [sub_eq_zero] using hk
      rw [heq, cut_eq_nil hsize le_rfl, List.nil_append]
  | succ k ih =>
      have hnext : middle - (start + size) = size * k := by
        rw [Nat.cast_succ] at hk
        linarith
      have hle : start + size ≤ middle := by
        have := mul_nonneg hsize.le (Int.natCast_nonneg k)
        omega
      rw [cut_eq_cons hsize (by omega : start < stop),
        cut_eq_cons hsize (by omega : start < middle), min_eq_right (by omega : start + size ≤ stop),
        min_eq_right hle, ih hle hnext, List.cons_append]

/-- The rule of induction on a stretch: one batch off its front. -/
theorem cut_induction (hsize : 0 < size) (stop : ℤ) {motive : ℤ → Prop}
    (done : ∀ start, stop ≤ start → motive start)
    (step : ∀ start, start < stop → motive (min stop (start + size)) → motive start)
    (start : ℤ) : motive start := by
  induction hn : (stop - start).toNat using Nat.strong_induction_on generalizing start with
  | _ n ih =>
      by_cases h : start < stop
      · exact step start h (ih _ (by omega) _ rfl)
      · exact done start (by omega)

/-- Every batch lies in the stretch, is nonempty and at most `size` long. -/
theorem mem_cut (hsize : 0 < size) {batch : ℤ × ℤ} (h : batch ∈ cut size start stop) :
    start ≤ batch.1 ∧ batch.1 < batch.2 ∧ batch.2 ≤ stop ∧ batch.2 - batch.1 ≤ size := by
  induction start using cut_induction hsize stop with
  | done start hdone =>
      rw [cut_eq_nil hsize hdone] at h
      cases h
  | step start hlt ih =>
      rw [cut_eq_cons hsize hlt] at h
      rcases List.mem_cons.mp h with rfl | h
      · exact ⟨le_rfl, by omega, by omega, by omega⟩
      · obtain ⟨hlow, hrest⟩ := ih h
        exact ⟨by omega, hrest⟩

/-- **The batches of a stretch follow on one another, from its start to its end.** -/
theorem abutting_cut (hsize : 0 < size) (h : start ≤ stop) :
    Intervals.Abutting Prod.fst (fun batch => batch.2 - 1) start (cut size start stop) stop := by
  induction start using cut_induction hsize stop with
  | done start hdone =>
      rw [cut_eq_nil hsize hdone]
      exact le_antisymm h hdone
  | step start hlt ih =>
      rw [cut_eq_cons hsize hlt]
      refine ⟨rfl, ?_⟩
      rw [sub_add_cancel]
      exact ih (min_le_left _ _)

/-- The batches of a stretch are as long as the stretch. -/
theorem sum_cut (hsize : 0 < size) :
    ((cut size start stop).map fun batch => batch.2 - batch.1).sum = max 0 (stop - start) := by
  induction start using cut_induction hsize stop with
  | done start hdone =>
      rw [cut_eq_nil hsize hdone, List.map_nil, List.sum_nil]
      omega
  | step start hlt ih =>
      rw [cut_eq_cons hsize hlt, List.map_cons, List.sum_cons, ih]
      omega

end Batches
