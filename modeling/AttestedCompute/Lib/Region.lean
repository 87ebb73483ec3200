import Mathlib

/-!
# Regions of a sequence

A decoder of a binary format cuts its input into stretches, some of them cut again.
A stretch is an offset and a length; a stretch of a stretch is a stretch of the whole
(`slice_slice`), and stretches laid end to end never share a position
(`Consecutive.pairwise_disjoint`).
-/

/-- A stretch of a sequence: where it starts and how long it is. -/
structure Region where
  start : Nat
  length : Nat
  deriving DecidableEq, Repr

namespace Region

variable {α : Type*}

/-- The first position past the region. -/
def stop (r : Region) : Nat := r.start + r.length

/-- The elements of `xs` in the region. -/
def slice (r : Region) (xs : List α) : List α := (xs.drop r.start).take r.length

/-- The region of the whole that a region of a slice starting at `k` is. -/
def shift (k : Nat) (r : Region) : Region := ⟨k + r.start, r.length⟩

/-- Every position of `r` is a position of `outer`. -/
def Inside (r outer : Region) : Prop := outer.start ≤ r.start ∧ r.stop ≤ outer.stop

/-- No position is in both regions. -/
def Disjoint (r s : Region) : Prop := r.stop ≤ s.start ∨ s.stop ≤ r.start

/-- The regions are laid end to end from `start` to `stop`. -/
def Consecutive : Nat → List Region → Nat → Prop
  | start, [], stop => start = stop
  | start, r :: rs, stop => r.start = start ∧ Consecutive r.stop rs stop

theorem length_slice {r : Region} {xs : List α} (h : r.stop ≤ xs.length) :
    (r.slice xs).length = r.length := by
  unfold stop at h
  rw [slice, List.length_take, List.length_drop]
  omega

/-- **A slice of a slice is a slice.** -/
theorem slice_slice {r o : Region} {xs : List α} (h : r.stop ≤ o.length) :
    r.slice (o.slice xs) = (r.shift o.start).slice xs := by
  unfold stop at h
  unfold slice shift
  rw [List.drop_take, List.drop_drop, List.take_take, min_eq_left (by omega)]

theorem Consecutive.le {start stop : Nat} {rs : List Region} (h : Consecutive start rs stop) :
    start ≤ stop := by
  induction rs generalizing start with
  | nil => exact Nat.le_of_eq h
  | cons r rs ih =>
      obtain ⟨hstart, hrest⟩ := h
      have hle := ih hrest
      unfold Region.stop at hle
      omega

/-- Every region of the row lies between its ends. -/
theorem Consecutive.inside {start stop : Nat} {rs : List Region} (h : Consecutive start rs stop) :
    ∀ r ∈ rs, start ≤ r.start ∧ r.stop ≤ stop := by
  induction rs generalizing start with
  | nil => intro r hr; cases hr
  | cons s rs ih =>
      obtain ⟨hstart, hrest⟩ := h
      intro r hr
      rcases List.mem_cons.mp hr with rfl | hr
      · exact ⟨Nat.le_of_eq hstart.symm, hrest.le⟩
      · obtain ⟨hlow, hhigh⟩ := ih hrest r hr
        unfold Region.stop at hlow
        exact ⟨by omega, hhigh⟩

/-- **Regions laid end to end are pairwise disjoint.** -/
theorem Consecutive.pairwise_disjoint {start stop : Nat} {rs : List Region}
    (h : Consecutive start rs stop) : rs.Pairwise Disjoint := by
  induction rs generalizing start with
  | nil => exact List.Pairwise.nil
  | cons r rs ih =>
      refine List.pairwise_cons.mpr ⟨fun s hs => Or.inl ?_, ih h.2⟩
      exact (h.2.inside s hs).1

/-- A row cut in two is two rows. -/
theorem Consecutive.of_append {start stop : Nat} {rs ss : List Region}
    (h : Consecutive start (rs ++ ss) stop) :
    ∃ middle, Consecutive start rs middle ∧ Consecutive middle ss stop := by
  induction rs generalizing start with
  | nil => exact ⟨start, rfl, h⟩
  | cons r rs ih =>
      obtain ⟨middle, hrs, hss⟩ := ih h.2
      exact ⟨middle, ⟨h.1, hrs⟩, hss⟩

end Region
