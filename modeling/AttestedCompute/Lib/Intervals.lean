import Mathlib

/-!
# Chains of integer intervals

A list of closed intervals of integers, each starting one past the end of the one
before. Nothing is said about an interval's own length: an empty interval (its end one
below its start) stays where it is, and one that runs backwards overlaps what came
before. A chain that starts at or below a point and ends past it covers the point
either way (`Abutting.exists_mem`); with nonempty intervals it is a partition
(`Abutting.pairwise_lt`, `Abutting.exists_mem_iff`).
-/

namespace Intervals

variable {α : Type*} (lo hi : α → ℤ)

/-- Each interval starts where the one before it stopped, from `start` on to `next`. -/
def Abutting : ℤ → List α → ℤ → Prop
  | start, [], next => start = next
  | start, w :: ws, next => lo w = start ∧ Abutting (hi w + 1) ws next

variable {lo hi} {start next : ℤ} {ws : List α}

theorem abutting_map {β : Type*} {f : β → α} {vs : List β} :
    Abutting lo hi start (vs.map f) next ↔
      Abutting (fun v => lo (f v)) (fun v => hi (f v)) start vs next := by
  induction vs generalizing start with
  | nil => exact Iff.rfl
  | cons v vs ih => exact and_congr_right fun _ => ih

/-- A chain cut in two is two chains. -/
theorem Abutting.of_append {vs : List α} (h : Abutting lo hi start (vs ++ ws) next) :
    ∃ middle, Abutting lo hi start vs middle ∧ Abutting lo hi middle ws next := by
  induction vs generalizing start with
  | nil => exact ⟨start, rfl, h⟩
  | cons v vs ih =>
      obtain ⟨middle, hvs, hws⟩ := ih h.2
      exact ⟨middle, ⟨h.1, hvs⟩, hws⟩

/-- **Every point between the ends of a chain lies in one of its intervals.** -/
theorem Abutting.exists_mem (h : Abutting lo hi start ws next) {n : ℤ} (hlow : start ≤ n)
    (hhigh : n < next) : ∃ w ∈ ws, n ∈ Set.Icc (lo w) (hi w) := by
  induction ws generalizing start with
  | nil =>
      have heq : start = next := h
      omega
  | cons w ws ih =>
      obtain ⟨hstart, hrest⟩ := h
      by_cases hn : n ≤ hi w
      · exact ⟨w, List.mem_cons_self, by rw [hstart]; exact hlow, hn⟩
      · obtain ⟨v, hv, hmem⟩ := ih hrest (by omega)
        exact ⟨v, List.mem_cons_of_mem w hv, hmem⟩

/-- With nonempty intervals no interval leaves the chain's own range. -/
theorem Abutting.bounds (h : Abutting lo hi start ws next) (hne : ∀ w ∈ ws, lo w ≤ hi w) :
    start ≤ next ∧ ∀ w ∈ ws, start ≤ lo w ∧ hi w < next := by
  induction ws generalizing start with
  | nil => exact ⟨le_of_eq h, fun w hw => by cases hw⟩
  | cons w ws ih =>
      obtain ⟨hstart, hrest⟩ := h
      have hw := hne w List.mem_cons_self
      obtain ⟨hle, hmem⟩ := ih hrest fun v hv => hne v (List.mem_cons_of_mem w hv)
      refine ⟨by omega, fun v hv => ?_⟩
      rcases List.mem_cons.mp hv with rfl | hv
      · exact ⟨by omega, by omega⟩
      · obtain ⟨hlow, hhigh⟩ := hmem v hv
        exact ⟨by omega, hhigh⟩

/-- **Nonempty intervals of a chain are strictly increasing.** -/
theorem Abutting.pairwise_lt (h : Abutting lo hi start ws next) (hne : ∀ w ∈ ws, lo w ≤ hi w) :
    ws.Pairwise fun v w => hi v < lo w := by
  induction ws generalizing start with
  | nil => exact List.Pairwise.nil
  | cons w ws ih =>
      obtain ⟨-, hrest⟩ := h
      have htail : ∀ v ∈ ws, lo v ≤ hi v := fun v hv => hne v (List.mem_cons_of_mem w hv)
      refine List.pairwise_cons.mpr ⟨fun v hv => ?_, ih hrest htail⟩
      have hlow := ((hrest.bounds htail).2 v hv).1
      omega

/-- **Nonempty intervals of a chain cover exactly the range between its ends.** -/
theorem Abutting.exists_mem_iff (h : Abutting lo hi start ws next)
    (hne : ∀ w ∈ ws, lo w ≤ hi w) (n : ℤ) :
    (∃ w ∈ ws, n ∈ Set.Icc (lo w) (hi w)) ↔ n ∈ Set.Ico start next := by
  constructor
  · rintro ⟨w, hw, hlow, hhigh⟩
    obtain ⟨hstart, hnext⟩ := (h.bounds hne).2 w hw
    exact ⟨by omega, by omega⟩
  · rintro ⟨hlow, hhigh⟩
    exact h.exists_mem hlow hhigh

end Intervals
