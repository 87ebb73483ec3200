import Mathlib

/-!
# Cutting a stream into runs

A streaming writer that closes a record after every `k` items, and once more for
what is left at the end, cuts its input into runs of exactly `k` items of which
only the last may be shorter.
-/

namespace Runs

variable {α : Type*}

/-- Consecutive runs of `k` items, of which only the last may be shorter, and none empty. -/
structure IsRuns (k : Nat) (runs : List (List α)) : Prop where
  nonempty : ∀ run ∈ runs, run ≠ []
  short : ∀ run ∈ runs, run.length ≤ k
  full : ∀ run ∈ runs.dropLast, run.length = k

/-- What is left over as a run of its own, unless nothing is left over. -/
def leftover (current : List α) : List (List α) := if current = [] then [] else [current]

@[simp] theorem leftover_nil : leftover ([] : List α) = [] := if_pos rfl

theorem leftover_of_ne_nil {current : List α} (h : current ≠ []) : leftover current = [current] :=
  if_neg h

@[simp] theorem flatten_leftover (current : List α) : (leftover current).flatten = current := by
  by_cases h : current = []
  · rw [h]; rfl
  · rw [leftover_of_ne_nil h, List.flatten_singleton]

theorem isRuns_nil (k : Nat) : IsRuns k ([] : List (List α)) :=
  ⟨by simp, by simp, by simp⟩

/-- **Full runs followed by the leftover form a cut.** -/
theorem isRuns_append_leftover {k : Nat} (hk : 0 < k) {closed : List (List α)} {current : List α}
    (hclosed : ∀ run ∈ closed, run.length = k) (hcurrent : current.length < k) :
    IsRuns k (closed ++ leftover current) := by
  have hne : ∀ run ∈ closed, run ≠ [] := by
    rintro run hrun rfl
    have hlen : 0 = k := hclosed [] hrun
    omega
  by_cases h : current = []
  · rw [h, leftover_nil, List.append_nil]
    exact ⟨hne, fun run hrun => Nat.le_of_eq (hclosed run hrun),
      fun run hrun => hclosed run (List.mem_of_mem_dropLast hrun)⟩
  · rw [leftover_of_ne_nil h]
    refine ⟨fun run hrun => ?_, fun run hrun => ?_, fun run hrun => ?_⟩
    · rcases List.mem_append.mp hrun with hr | hr
      · exact hne run hr
      · rw [List.mem_singleton.mp hr]; exact h
    · rcases List.mem_append.mp hrun with hr | hr
      · exact Nat.le_of_eq (hclosed run hr)
      · rw [List.mem_singleton.mp hr]; exact Nat.le_of_lt hcurrent
    · rw [List.dropLast_concat] at hrun
      exact hclosed run hrun

end Runs
