import AttestedCompute.Dirichlet.ScanMonoid

/-!
# Where the determinate samples lie

Half of a record does not look at the signs: its sample counts, the first and the last
determinate ordinate, and the ambiguity ranges only depend on which samples are
determinate. That half is the `Shape` of the record. A mask of the samples gives it
(`plot`), and the ranges of a plot are the maximal runs of ambiguous samples, written down
in order (`MaximalRuns`).
-/

namespace AttestedCompute.Dirichlet

open CharacterRecord

/-- What a record says about where its determinate samples lie. -/
@[ext]
structure Shape where
  sampleCount : Int
  firstDeterminateNumerator : Option Int
  lastDeterminateNumerator : Option Int
  leadingAmbiguityCount : Int
  trailingAmbiguityCount : Int
  ambiguityCount : Int
  ambiguityRanges : List AmbiguityRange
  deriving DecidableEq, Repr

def CharacterRecord.shape (value : CharacterRecord) : Shape where
  sampleCount := value.sampleCount
  firstDeterminateNumerator := value.firstDeterminateNumerator
  lastDeterminateNumerator := value.lastDeterminateNumerator
  leadingAmbiguityCount := value.leadingAmbiguityCount
  trailingAmbiguityCount := value.trailingAmbiguityCount
  ambiguityCount := value.ambiguityCount
  ambiguityRanges := value.ambiguityRanges

namespace Shape

/-- The shape of two chunks in a row. -/
def join (left right : Shape) : Shape where
  sampleCount := left.sampleCount + right.sampleCount
  firstDeterminateNumerator :=
    if left.firstDeterminateNumerator.isSome then left.firstDeterminateNumerator
    else right.firstDeterminateNumerator
  lastDeterminateNumerator :=
    if right.firstDeterminateNumerator.isSome then right.lastDeterminateNumerator
    else left.lastDeterminateNumerator
  leadingAmbiguityCount := left.leadingAmbiguityCount
    + if left.firstDeterminateNumerator.isSome then 0 else right.leadingAmbiguityCount
  trailingAmbiguityCount := right.trailingAmbiguityCount
    + if right.firstDeterminateNumerator.isSome then 0 else left.trailingAmbiguityCount
  ambiguityCount := left.ambiguityCount + right.ambiguityCount
  ambiguityRanges := joinRanges left.ambiguityRanges right.ambiguityRanges

end Shape

theorem shape_merge (a b : CharacterRecord) : (merge a b).shape = a.shape.join b.shape := rfl

/-- Every determinate sample positive. -/
def maskSigns (mask : List Bool) : List SignType := mask.map fun d => if d then 1 else 0

/-- The shape of a chunk whose determinate samples are marked `true`. -/
def plot (start : Int) (mask : List Bool) : Shape :=
  (scanOf ⟨0, 0, 0⟩ start (maskSigns mask)).shape

/-- The mask of samples. -/
def maskOf (xs : List SignType) : List Bool := xs.map fun x => decide (x ≠ 0)

theorem plot_nil (p : Int) : plot p [] = (emptyRecord ⟨0, 0, 0⟩).shape := rfl

theorem plot_append (p : Int) (front back : List Bool) :
    plot p (front ++ back) = (plot p front).join (plot (after p front.length) back) := by
  unfold plot maskSigns
  rw [List.map_append, scanOf_append, shape_merge, List.length_map]

theorem plot_cons (p : Int) (d : Bool) (mask : List Bool) :
    plot p (d :: mask) = (plot p [d]).join (plot (p + SOURCE_SAMPLE_NUMERATOR) mask) := by
  have h := plot_append p [d] mask
  rwa [List.singleton_append, show after p [d].length = p + SOURCE_SAMPLE_NUMERATOR by
    simp [after]] at h

theorem plot_one (p : Int) (d : Bool) :
    plot p [d] = (single ⟨0, 0, 0⟩ p (if d then 1 else 0)).shape := by
  show (scanOf _ p [if d then 1 else 0]).shape = _
  rw [scanOf_singleton]

/-- **The shape of a scan is the plot of its mask.** -/
theorem shape_scanOf {id : CharacterIdentity} (start : Int) (xs : List SignType) :
    (scanOf id start xs).shape = plot start (maskOf xs) := by
  induction xs generalizing start with
  | nil => rfl
  | cons x xs ih =>
      have hsingle : (single id start x).shape = plot start [decide (x ≠ 0)] := by
        rw [plot_one]
        cases x <;> rfl
      rw [scanOf, shape_merge, ih, hsingle, ← plot_cons]
      rfl

/-! ## Counting along the grid -/

theorem after_zero (p : Int) : after p 0 = p := by simp [after]

theorem after_after (p : Int) (a b : Nat) : after (after p a) b = after p (a + b) := by
  simp only [after, SOURCE_SAMPLE_NUMERATOR]
  omega

theorem after_lt {p : Int} {a b : Nat} : after p a < after p b ↔ a < b := by
  simp only [after, SOURCE_SAMPLE_NUMERATOR]
  omega

theorem after_le {p : Int} {a b : Nat} : after p a ≤ after p b ↔ a ≤ b := by
  simp only [after, SOURCE_SAMPLE_NUMERATOR]
  omega

theorem after_inj {p : Int} {a b : Nat} : after p a = after p b ↔ a = b := by
  simp only [after, SOURCE_SAMPLE_NUMERATOR]
  omega

theorem plot_sampleCount (p : Int) (mask : List Bool) : (plot p mask).sampleCount = mask.length := by
  induction mask generalizing p with
  | nil => rfl
  | cons d mask ih =>
      have hone : (plot p [d]).sampleCount = 1 := by rw [plot_one]; cases d <;> rfl
      rw [plot_cons, List.length_cons]
      show (plot p [d]).sampleCount + (plot _ mask).sampleCount = _
      rw [hone, ih]
      omega

theorem plot_ambiguityCount (p : Int) (mask : List Bool) :
    (plot p mask).ambiguityCount = mask.count false := by
  induction mask generalizing p with
  | nil => rfl
  | cons d mask ih =>
      have hone : (plot p [d]).ambiguityCount = if d then 0 else 1 := by
        rw [plot_one]; cases d <;> rfl
      rw [plot_cons, List.count_cons]
      show (plot p [d]).ambiguityCount + (plot _ mask).ambiguityCount = _
      rw [hone, ih]
      cases d <;> simp [Int.add_comm]

/-- The shape of ambiguous samples only. -/
theorem plot_ambiguous (p : Int) (count : Nat) :
    plot p (List.replicate (count + 1) false) =
      { sampleCount := count + 1
        firstDeterminateNumerator := none
        lastDeterminateNumerator := none
        leadingAmbiguityCount := count + 1
        trailingAmbiguityCount := count + 1
        ambiguityCount := count + 1
        ambiguityRanges := [⟨p, after p (count + 1)⟩] } := by
  induction count generalizing p with
  | zero => simp [plot_one, single, emptyRecord, CharacterRecord.shape, after]
  | succ count ih =>
      have hend : after (p + SOURCE_SAMPLE_NUMERATOR) (count + 1) = after p (count + 1 + 1) :=
        (after_succ p (count + 1)).symm
      rw [List.replicate_succ, plot_cons, ih, hend, plot_one]
      simp [Shape.join, single, emptyRecord, CharacterRecord.shape, joinRanges, Int.add_comm]

/-- The first determinate sample and what leads up to it. -/
theorem plot_leading (p : Int) (count : Nat) (mask : List Bool) :
    (plot p (List.replicate count false ++ true :: mask)).firstDeterminateNumerator
        = some (after p count)
      ∧ (plot p (List.replicate count false ++ true :: mask)).leadingAmbiguityCount = count := by
  induction count generalizing p with
  | zero =>
      rw [List.replicate_zero, List.nil_append, plot_cons, plot_one, after_zero]
      exact ⟨rfl, rfl⟩
  | succ count ih =>
      obtain ⟨hfirst, hleading⟩ := ih (p + SOURCE_SAMPLE_NUMERATOR)
      rw [List.replicate_succ, List.cons_append, plot_cons, plot_one]
      refine ⟨?_, ?_⟩
      · rw [after_succ]
        exact hfirst
      · show 1 + (plot _ _).leadingAmbiguityCount = _
        rw [hleading]
        omega

/-- The last determinate sample and what trails it. -/
theorem plot_trailing (p : Int) (mask : List Bool) (count : Nat) :
    (plot p (mask ++ true :: List.replicate count false)).lastDeterminateNumerator
        = some (after p mask.length)
      ∧ (plot p (mask ++ true :: List.replicate count false)).trailingAmbiguityCount = count := by
  rw [plot_append, plot_cons, plot_one]
  cases count with
  | zero => exact ⟨rfl, rfl⟩
  | succ count =>
      rw [plot_ambiguous]
      exact ⟨rfl, Int.add_zero _⟩

/-! ## Maximal runs -/

/-- **The ranges are the maximal runs of ambiguous samples, in order.** -/
inductive MaximalRuns : Int → List Bool → List AmbiguityRange → Prop where
  | done {p : Int} (gap : Nat) : MaximalRuns p (List.replicate gap true) []
  | run {p : Int} {tail : List Bool} {rest : List AmbiguityRange} (gap count : Nat) :
      tail.head? ≠ some false → MaximalRuns (after p (gap + (count + 1))) tail rest →
      MaximalRuns p (List.replicate gap true ++ (List.replicate (count + 1) false ++ tail))
        (⟨after p gap, after p (gap + (count + 1))⟩ :: rest)

variable {p : Int} {mask : List Bool} {ranges : List AmbiguityRange}

theorem MaximalRuns.cons_true (h : MaximalRuns (p + SOURCE_SAMPLE_NUMERATOR) mask ranges) :
    MaximalRuns p (true :: mask) ranges := by
  cases h with
  | done gap => rw [← List.replicate_succ]; exact .done (gap + 1)
  | @run _ tail rest gap count hhead hrest =>
      have hstop : gap + (count + 1) + 1 = gap + 1 + (count + 1) := by omega
      rw [← after_succ, hstop] at hrest
      rw [← after_succ, ← after_succ, hstop, ← List.cons_append, ← List.replicate_succ]
      exact .run (gap + 1) count hhead hrest

theorem MaximalRuns.cons_false (h : MaximalRuns (p + SOURCE_SAMPLE_NUMERATOR) mask ranges) :
    ∃ ranges', MaximalRuns p (false :: mask) ranges' := by
  -- a run that does not reach the new sample is left alone
  have hopen : mask.head? ≠ some false → ∃ ranges', MaximalRuns p (false :: mask) ranges' := by
    intro hhead
    have hnext : MaximalRuns (after p (0 + (0 + 1))) mask ranges := by simpa [after] using h
    exact ⟨_, .run 0 0 hhead hnext⟩
  cases h with
  | done gap => exact hopen (by cases gap <;> simp [List.replicate_succ])
  | @run _ tail rest gap count hhead hrest =>
      cases gap with
      | succ gap => exact hopen (by simp [List.replicate_succ])
      | zero =>
          rw [← after_succ, Nat.zero_add] at hrest
          rw [List.replicate_zero, List.nil_append, ← List.cons_append, ← List.replicate_succ]
          exact ⟨_, .run 0 (count + 1) hhead (by rwa [Nat.zero_add])⟩

/-- Every mask has its runs. -/
theorem exists_maximalRuns (p : Int) (mask : List Bool) : ∃ ranges, MaximalRuns p mask ranges := by
  induction mask generalizing p with
  | nil => exact ⟨[], .done 0⟩
  | cons d mask ih =>
      obtain ⟨ranges, h⟩ := ih (p + SOURCE_SAMPLE_NUMERATOR)
      cases d with
      | true => exact ⟨ranges, h.cons_true⟩
      | false => exact h.cons_false

/-- The ranges lie in the chunk, and a determinate first sample keeps them off its start. -/
theorem MaximalRuns.bounds (h : MaximalRuns p mask ranges) : ∀ range ∈ ranges,
    (p ≤ range.firstTNumerator ∧ (mask.head? ≠ some false → p < range.firstTNumerator))
      ∧ range.firstTNumerator < range.stopTNumerator
      ∧ range.stopTNumerator ≤ after p mask.length := by
  induction h with
  | done => intro range h; cases h
  | @run p tail rest gap count hhead hrest ih =>
      have hlength : (List.replicate gap true ++ (List.replicate (count + 1) false ++ tail)).length
          = gap + (count + 1) + tail.length := by simp; omega
      intro range hrange
      rcases List.mem_cons.mp hrange with rfl | hrange
      · refine ⟨⟨?_, fun hfirst => ?_⟩, after_lt.mpr (by omega), ?_⟩
        · have h := after_le (p := p).mpr (Nat.zero_le gap)
          rwa [after_zero] at h
        · cases gap with
          | zero => exact absurd rfl hfirst
          | succ gap =>
              have h := after_lt (p := p).mpr (Nat.zero_lt_succ gap)
              rwa [after_zero] at h
        · exact after_le.mpr (by omega)
      · obtain ⟨⟨hle, -⟩, hlt, hstop⟩ := ih range hrange
        have hstart : p < after p (gap + (count + 1)) := by
          have h := after_lt (p := p).mpr (Nat.zero_lt_succ (gap + count))
          rwa [after_zero] at h
        rw [after_after, ← hlength] at hstop
        exact ⟨⟨by omega, fun _ => by omega⟩, hlt, hstop⟩

/-- Ranges that stay apart are not joined. -/
theorem joinRanges_apart {left right : List AmbiguityRange}
    (h : ∀ last ∈ left.getLast?, ∀ head ∈ right.head?, last.stopTNumerator ≠ head.firstTNumerator) :
    joinRanges left right = left ++ right := by
  cases left using List.reverseRecOn with
  | nil => rfl
  | append_singleton front last =>
      cases right with
      | nil => rw [joinRanges_nil_right, List.append_nil]
      | cons head rest =>
          rw [joinRanges_concat_cons, if_neg (h last (by simp) head rfl), List.append_assoc]
          rfl

/-- **The ranges of a plot are its maximal runs.** -/
theorem MaximalRuns.plot_ranges (h : MaximalRuns p mask ranges) :
    (plot p mask).ambiguityRanges = ranges := by
  have hgap : ∀ (gap : Nat) (p : Int) (mask : List Bool),
      (plot p (List.replicate gap true ++ mask)).ambiguityRanges
        = (plot (after p gap) mask).ambiguityRanges := by
    intro gap
    induction gap with
    | zero => intro p mask; rw [after_zero]; rfl
    | succ gap ih =>
        intro p mask
        rw [List.replicate_succ, List.cons_append, plot_cons, plot_one, after_succ, ← ih]
        rfl
  induction h with
  | @done p gap =>
      have h := hgap gap p []
      rwa [List.append_nil] at h
  | @run p tail rest gap count hhead hrest ih =>
      rw [hgap, plot_append, plot_ambiguous]
      show joinRanges [_] (plot _ tail).ambiguityRanges = _
      rw [List.length_replicate, after_after, ih, joinRanges_apart, List.singleton_append]
      intro last hlast head hmem
      obtain rfl : last = _ := (Option.mem_some_iff.mp hlast).symm
      have hbounds := hrest.bounds head (List.mem_of_mem_head? hmem)
      exact ne_of_lt (hbounds.1.2 hhead)

theorem maximalRuns_plot (p : Int) (mask : List Bool) :
    MaximalRuns p mask (plot p mask).ambiguityRanges := by
  obtain ⟨ranges, h⟩ := exists_maximalRuns p mask
  rwa [h.plot_ranges]

/-- A sample is in a range exactly when it is ambiguous. -/
theorem MaximalRuns.covers (h : MaximalRuns p mask ranges) (i : Nat) :
    (∃ range ∈ ranges, range.firstTNumerator ≤ after p i ∧ after p i < range.stopTNumerator)
      ↔ mask[i]? = some false := by
  induction h generalizing i with
  | done gap =>
      rw [List.getElem?_replicate]
      constructor
      · intro hall
        obtain ⟨range, h, _⟩ := hall
        cases h
      · intro h
        split at h <;> cases h
  | @run p tail rest gap count hhead hrest ih =>
      simp only [List.exists_mem_cons_iff, after_le, after_lt]
      rcases Nat.lt_or_ge i (gap + (count + 1)) with hlt | hge
      · -- before the end of the first run the later ones do not matter
        have hno : ¬ ∃ range ∈ rest, range.firstTNumerator ≤ after p i
            ∧ after p i < range.stopTNumerator := by
          intro hall
          obtain ⟨range, hrange, hfirst, _⟩ := hall
          have hstart := (hrest.bounds range hrange).1.1
          have hbefore := after_lt (p := p).mpr hlt
          omega
        rw [or_iff_left hno]
        rcases Nat.lt_or_ge i gap with hin | hout
        · rw [List.getElem?_append_left (by simpa using hin), List.getElem?_replicate, if_pos hin]
          simp [Nat.not_le_of_lt hin]
        · rw [List.getElem?_append_right (by simpa using hout), List.length_replicate,
            List.getElem?_append_left (by simp; omega), List.getElem?_replicate,
            if_pos (by omega)]
          simp [hout, hlt]
      · obtain ⟨j, rfl⟩ := Nat.exists_eq_add_of_le hge
        have htail := ih j
        rw [after_after] at htail
        rw [htail, or_iff_right (by omega), ← List.append_assoc,
          List.getElem?_append_right (by simp), List.length_append, List.length_replicate,
          List.length_replicate, Nat.add_sub_cancel_left]

/-- A chunk that starts with a determinate sample adds its ranges unchanged. -/
theorem plot_append_ranges (p : Int) (front : List Bool) {back : List Bool}
    (h : back.head? ≠ some false) : (plot p (front ++ back)).ambiguityRanges
      = (plot p front).ambiguityRanges ++ (plot (after p front.length) back).ambiguityRanges := by
  rw [plot_append]
  refine joinRanges_apart fun last hlast head hhead => ?_
  have hstop := ((maximalRuns_plot p front).bounds last (List.mem_of_getLast? hlast)).2.2
  have hfirst := (maximalRuns_plot _ back).bounds head (List.mem_of_mem_head? hhead)
  exact ne_of_lt (lt_of_le_of_lt hstop (hfirst.1.2 h))

/-- The run between two determinate samples is one of the ranges. -/
theorem mem_plot_ranges (p : Int) (front tail : List Bool) (count : Nat) :
    ⟨after p (front.length + 1), after p (front.length + (count + 1) + 1)⟩
      ∈ (plot p (front ++ true :: (List.replicate (count + 1) false
        ++ true :: tail))).ambiguityRanges := by
  have hrun : after (after p front.length + SOURCE_SAMPLE_NUMERATOR) (count + 1)
      = after p (front.length + (count + 1) + 1) := by
    rw [← after_succ, after_after]
    rfl
  have hstart : after p front.length + SOURCE_SAMPLE_NUMERATOR = after p (front.length + 1) := by
    rw [← after_after]
    simp [after]
  rw [plot_append_ranges p front (by simp), plot_cons, plot_one]
  show _ ∈ _ ++ joinRanges [] (plot (after p front.length + SOURCE_SAMPLE_NUMERATOR) _).ambiguityRanges
  rw [joinRanges_nil_left, plot_append_ranges _ (List.replicate (count + 1) false) (by simp),
    plot_ambiguous, hrun, hstart]
  simp

/-! ## The ends of a mask -/

theorem eq_replicate_false {mask : List Bool} (h : true ∉ mask) :
    mask = List.replicate mask.length false :=
  List.eq_replicate_of_mem fun d hd => by
    cases d with
    | true => exact absurd hd h
    | false => rfl

theorem exists_leading {mask : List Bool} (h : true ∈ mask) :
    ∃ count tail, mask = List.replicate count false ++ true :: tail := by
  obtain ⟨front, tail, rfl, hfront⟩ := List.eq_append_cons_of_mem h
  exact ⟨front.length, tail, by rw [← eq_replicate_false hfront]⟩

theorem exists_trailing {mask : List Bool} (h : true ∈ mask) :
    ∃ front count, mask = front ++ true :: List.replicate count false := by
  obtain ⟨count, tail, hmask⟩ := exists_leading (List.mem_reverse.mpr h)
  refine ⟨tail.reverse, count, ?_⟩
  rw [← mask.reverse_reverse, hmask]
  simp

/-- A plot has a first determinate ordinate when there is a determinate sample. -/
theorem plot_first_isSome (p : Int) (mask : List Bool) :
    (plot p mask).firstDeterminateNumerator.isSome = true ↔ true ∈ mask := by
  by_cases h : true ∈ mask
  · obtain ⟨count, tail, rfl⟩ := exists_leading h
    rw [(plot_leading p count tail).1]
    simp
  · rw [eq_replicate_false h]
    cases mask.length with
    | zero => simp [plot_nil, CharacterRecord.shape, emptyRecord]
    | succ count => simp [plot_ambiguous]

/-- A plot shows both ends or none. -/
theorem plot_sameEnds (p : Int) (mask : List Bool) :
    (plot p mask).lastDeterminateNumerator.isSome
      = (plot p mask).firstDeterminateNumerator.isSome :=
  (wellKept_scanOf p (maskSigns mask)).sameEnds

/-- The first and the last determinate sample of a mask, and what its plot says of them. -/
structure MaskEnds (p : Int) (mask : List Bool) (lo hi : Nat) : Prop where
  lowMark : mask[lo]? = some true
  highMark : mask[hi]? = some true
  inside : ∀ j, mask[j]? = some true → lo ≤ j ∧ j ≤ hi
  first : (plot p mask).firstDeterminateNumerator = some (after p lo)
  last : (plot p mask).lastDeterminateNumerator = some (after p hi)
  leading : (plot p mask).leadingAmbiguityCount = lo
  trailing : (plot p mask).trailingAmbiguityCount = mask.length - (hi + 1)

theorem MaskEnds.lt_length {lo hi : Nat} (h : MaskEnds p mask lo hi) : hi < mask.length :=
  (List.getElem?_eq_some_iff.mp h.highMark).1

theorem exists_maskEnds (p : Int) {mask : List Bool} (h : true ∈ mask) :
    ∃ lo hi, MaskEnds p mask lo hi := by
  obtain ⟨lo, tail, hlead⟩ := exists_leading h
  obtain ⟨front, count, htrail⟩ := exists_trailing h
  have hlength : mask.length = front.length + 1 + count := by
    rw [htrail]
    simp
    omega
  refine ⟨lo, front.length, ?_, ?_, fun j hj => ⟨?_, ?_⟩, ?_, ?_, ?_, ?_⟩
  · rw [hlead, List.getElem?_append_right (by simp)]
    simp
  · rw [htrail, List.getElem?_append_right (le_refl _)]
    simp
  · by_contra hlt
    rw [hlead, List.getElem?_append_left (by simp; omega), List.getElem?_replicate] at hj
    split at hj <;> cases hj
  · by_contra hlt
    obtain ⟨d, rfl⟩ : ∃ d, j = front.length + (d + 1) := ⟨j - (front.length + 1), by omega⟩
    rw [htrail, List.getElem?_append_right (by omega), Nat.add_sub_cancel_left,
      List.getElem?_cons_succ, List.getElem?_replicate] at hj
    split at hj <;> cases hj
  · conv_lhs => rw [hlead]
    exact (plot_leading p lo tail).1
  · conv_lhs => rw [htrail]
    exact (plot_trailing p front count).1
  · conv_lhs => rw [hlead]
    exact (plot_leading p lo tail).2
  · have hcount : (plot p mask).trailingAmbiguityCount = count := by
      conv_lhs => rw [htrail]
      exact (plot_trailing p front count).2
    rw [hcount, hlength]
    push_cast
    omega

/-- The plot of a nonempty mask without determinate samples. -/
theorem plot_of_not_mem (p : Int) {mask : List Bool} (h : true ∉ mask) (hne : mask ≠ []) :
    plot p mask =
      { sampleCount := mask.length
        firstDeterminateNumerator := none
        lastDeterminateNumerator := none
        leadingAmbiguityCount := mask.length
        trailingAmbiguityCount := mask.length
        ambiguityCount := mask.length
        ambiguityRanges := [⟨p, after p mask.length⟩] } := by
  obtain ⟨count, hcount⟩ := Nat.exists_eq_succ_of_ne_zero (mt List.length_eq_zero_iff.mp hne)
  rw [eq_replicate_false h, hcount, plot_ambiguous, List.length_replicate]
  simp

/-- No more ranges than ambiguous samples. -/
theorem MaximalRuns.length_le (h : MaximalRuns p mask ranges) :
    ranges.length ≤ mask.count false := by
  induction h with
  | done gap => exact Nat.zero_le _
  | run gap count hhead hrest ih =>
      simp only [List.length_cons, List.count_append, List.count_replicate]
      simp
      omega

/-- Both ends of a chunk have at most its ambiguous samples. -/
theorem plot_ends_le (p : Int) (mask : List Bool) :
    (0 ≤ (plot p mask).leadingAmbiguityCount
        ∧ (plot p mask).leadingAmbiguityCount ≤ mask.count false)
      ∧ 0 ≤ (plot p mask).trailingAmbiguityCount
        ∧ (plot p mask).trailingAmbiguityCount ≤ mask.count false := by
  by_cases hmask : true ∈ mask
  · obtain ⟨lo, tail, hlead⟩ := exists_leading hmask
    obtain ⟨front, count, htrail⟩ := exists_trailing hmask
    refine ⟨?_, ?_⟩
    · rw [hlead, (plot_leading p lo tail).2, List.count_append, List.count_replicate_self]
      omega
    · rw [htrail, (plot_trailing p front count).2, List.count_append, List.count_cons_of_ne (by simp),
        List.count_replicate_self]
      omega
  · by_cases hne : mask = []
    · rw [hne]
      simp [plot_nil, CharacterRecord.shape, emptyRecord]
    · have hcount : mask.count false = mask.length := by
        rw [eq_replicate_false hmask]
        simp
      rw [plot_of_not_mem p hmask hne, hcount]
      simp

end AttestedCompute.Dirichlet
