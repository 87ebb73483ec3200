import Mathlib

/-!
# Guarded translations

A guarded translation of an ordered group moves a state by a fixed amount,
provided the state lies in an interval. Guarded translations are closed under
sequential composition: the second guard is pulled back through the first move
and intersected with the first guard. A run of many steps is therefore one step
of the composite, from exactly the same states.

The group is arbitrary. Over `Fin n → ℤ` the order is coordinate-wise, and
intersecting intervals is taking coordinate-wise maxima and minima.
-/

/-- Move by `delta` from any state of `[lower, upper]`. -/
@[ext]
structure GuardedTranslation (G : Type*) where
  delta : G
  lower : G
  upper : G

namespace GuardedTranslation

variable {G : Type*} [AddCommGroup G] [Lattice G]

/-- `t` leads from `s` to `s'`. -/
def Steps (t : GuardedTranslation G) (s s' : G) : Prop :=
  s ∈ Set.Icc t.lower t.upper ∧ s' = s + t.delta

/-- First `a`, then `b`. -/
def comp (a b : GuardedTranslation G) : GuardedTranslation G where
  delta := a.delta + b.delta
  lower := a.lower ⊔ (b.lower - a.delta)
  upper := a.upper ⊓ (b.upper - a.delta)

/-- The steps of a list, one after another. -/
def Runs : List (GuardedTranslation G) → G → G → Prop
  | [], s, s' => s' = s
  | t :: ts, s, s' => ∃ m, t.Steps s m ∧ Runs ts m s'

section

variable [IsOrderedAddMonoid G]

/-- The interval of the composite is the first interval cut by the pulled-back second. -/
theorem mem_comp {a b : GuardedTranslation G} {s : G} :
    s ∈ Set.Icc (a.comp b).lower (a.comp b).upper
      ↔ s ∈ Set.Icc a.lower a.upper ∧ s + a.delta ∈ Set.Icc b.lower b.upper := by
  simp only [comp, Set.mem_Icc, sup_le_iff, le_inf_iff, sub_le_iff_le_add, le_sub_iff_add_le]
  tauto

/-- **One composite step is two steps.** -/
theorem steps_comp {a b : GuardedTranslation G} {s s' : G} :
    (a.comp b).Steps s s' ↔ ∃ m, a.Steps s m ∧ b.Steps m s' := by
  constructor
  · rintro ⟨hmem, rfl⟩
    obtain ⟨ha, hb⟩ := mem_comp.mp hmem
    exact ⟨s + a.delta, ⟨ha, rfl⟩, hb, (add_assoc s a.delta b.delta).symm⟩
  · rintro ⟨m, ⟨ha, rfl⟩, hb, rfl⟩
    exact ⟨mem_comp.mpr ⟨ha, hb⟩, add_assoc s a.delta b.delta⟩

/-- **A whole run is one step of the composite.** -/
theorem steps_foldl_comp {t : GuardedTranslation G} {ts : List (GuardedTranslation G)} {s s' : G} :
    (ts.foldl comp t).Steps s s' ↔ Runs (t :: ts) s s' := by
  induction ts generalizing t with
  | nil => simp [Runs]
  | cons u ts ih =>
      rw [List.foldl_cons, ih]
      simp only [Runs, steps_comp]
      exact ⟨fun ⟨n, ⟨m, ht, hu⟩, hts⟩ => ⟨m, ht, n, hu, hts⟩,
        fun ⟨m, ht, n, hu, hts⟩ => ⟨n, ⟨m, ht, hu⟩, hts⟩⟩

/-- Composition is associative as an operation on the data, empty intervals included. -/
theorem comp_assoc (a b c : GuardedTranslation G) :
    (a.comp b).comp c = a.comp (b.comp c) := by
  have hlower : b.lower ⊔ (c.lower - b.delta) - a.delta
      = (b.lower - a.delta) ⊔ (c.lower - (a.delta + b.delta)) := by
    rw [sub_eq_add_neg, sup_add, ← sub_eq_add_neg, ← sub_eq_add_neg, sub_sub, add_comm b.delta]
  have hupper : b.upper ⊓ (c.upper - b.delta) - a.delta
      = (b.upper - a.delta) ⊓ (c.upper - (a.delta + b.delta)) := by
    rw [sub_eq_add_neg, inf_add, ← sub_eq_add_neg, ← sub_eq_add_neg, sub_sub, add_comm b.delta]
  refine GuardedTranslation.ext (add_assoc _ _ _) ?_ ?_
  · show a.lower ⊔ (b.lower - a.delta) ⊔ (c.lower - (a.delta + b.delta)) = a.lower ⊔ _
    rw [sup_assoc]
    exact congrArg _ hlower.symm
  · show a.upper ⊓ (b.upper - a.delta) ⊓ (c.upper - (a.delta + b.delta)) = a.upper ⊓ _
    rw [inf_assoc]
    exact congrArg _ hupper.symm

end

end GuardedTranslation
