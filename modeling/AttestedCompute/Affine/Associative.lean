import AttestedCompute.Affine.Scan

/-!
# Guarded composition is associative as a partial operation

`composeAffineGuards` fails on two different dimensions and on an empty composed
guard. What it returns is determined by what it denotes: a transition is the
composite of two others exactly when the three share a dimension and its guarded
translation is the composite of theirs. The transition returned by the outer
composition has an admissible state, and that state is admissible for the inner
composition of the other bracketing, which therefore does not fail either.
-/

namespace AttestedCompute.Affine

open Fallible (bind_ok)
open GuardedTranslation (comp comp_assoc mem_comp)

variable {n : Nat} {a b c t : AffineGuardTransition}

/-- A transition of dimension `n` is determined by what it denotes. -/
theorem denote_injective (ha : a.dimension = n) (hb : b.dimension = n)
    (h : a.denote n = b.denote n) : a = b := by
  have hdelta : a.delta = b.delta :=
    coordinates_injective ha hb (congrArg GuardedTranslation.delta h)
  have hlower : a.lowerGuard = b.lowerGuard :=
    coordinates_injective (a.lower_length.trans ha) (b.lower_length.trans hb)
      (congrArg GuardedTranslation.lower h)
  have hupper : a.upperGuard = b.upperGuard :=
    coordinates_injective (a.upper_length.trans ha) (b.upper_length.trans hb)
      (congrArg GuardedTranslation.upper h)
  cases a
  cases b
  simp_all

/-- The lower guard of a transition is an admissible state. -/
theorem lower_mem_guards (ha : a.dimension = n) :
    (a.denote n).lower ∈ Set.Icc (a.denote n).lower (a.denote n).upper := by
  have hle := (forall_mem_zip (a.lower_length.trans ha) (a.upper_length.trans ha)
    (fun p => p.1 ≤ p.2)).mp a.guards
  exact ⟨le_refl _, fun i => hle i⟩

/-- **What the composition returns.** -/
theorem compose_ok_iff :
    composeAffineGuards a b = .ok t
      ↔ a.dimension = t.dimension ∧ b.dimension = t.dimension
        ∧ t.denote t.dimension = (a.denote t.dimension).comp (b.denote t.dimension) := by
  constructor
  · intro h
    obtain ⟨hb, ht, hdenote⟩ := compose_ok rfl h
    rw [ht]
    exact ⟨rfl, hb, hdenote⟩
  · rintro ⟨ha, hb, hdenote⟩
    -- `t` itself supplies the admissible state the composition needs
    obtain ⟨u, hu⟩ := exists_compose ha hb (hdenote ▸ lower_mem_guards rfl)
    obtain ⟨-, hdim, hcomp⟩ := compose_ok ha hu
    rw [hu, denote_injective hdim rfl (hcomp.trans hdenote.symm)]

/-- If `a;b;c` has an admissible state then so has `a;b`. -/
theorem exists_compose_left (ha : a.dimension = n) (hb : b.dimension = n)
    (ht : t.dimension = n)
    (h : t.denote n = ((a.denote n).comp (b.denote n)).comp (c.denote n)) :
    ∃ u, composeAffineGuards a b = .ok u := by
  have hmem := lower_mem_guards ht
  rw [h] at hmem
  exact exists_compose ha hb (mem_comp.mp hmem).1

/-- If `a;b;c` has an admissible state then so has `b;c`. -/
theorem exists_compose_right (hb : b.dimension = n) (hc : c.dimension = n)
    (ht : t.dimension = n)
    (h : t.denote n = (a.denote n).comp ((b.denote n).comp (c.denote n))) :
    ∃ u, composeAffineGuards b c = .ok u := by
  have hmem := lower_mem_guards ht
  rw [h] at hmem
  exact exists_compose hb hc (mem_comp.mp hmem).2

/-- `(a;b);c` -/
def composeLeft (a b c : AffineGuardTransition) : Result AffineGuardTransition := do
  composeAffineGuards (← composeAffineGuards a b) c

/-- `a;(b;c)` -/
def composeRight (a b c : AffineGuardTransition) : Result AffineGuardTransition := do
  composeAffineGuards a (← composeAffineGuards b c)

/-- Three transitions of one dimension whose composite is `t`. -/
def IsTripleComposite (a b c t : AffineGuardTransition) : Prop :=
  a.dimension = t.dimension ∧ b.dimension = t.dimension ∧ c.dimension = t.dimension
    ∧ t.denote t.dimension
      = ((a.denote t.dimension).comp (b.denote t.dimension)).comp (c.denote t.dimension)

theorem composeLeft_ok : composeLeft a b c = .ok t ↔ IsTripleComposite a b c t := by
  unfold composeLeft
  rw [bind_ok]
  constructor
  · rintro ⟨u, hu, ht⟩
    obtain ⟨hud, hcd, htd⟩ := compose_ok_iff.mp ht
    obtain ⟨had, hbd, hucomp⟩ := compose_ok_iff.mp hu
    rw [hud] at had hbd hucomp
    refine ⟨had, hbd, hcd, ?_⟩
    rw [htd, hucomp]
  · rintro ⟨had, hbd, hcd, htd⟩
    obtain ⟨u, hu⟩ := exists_compose_left had hbd rfl htd
    obtain ⟨-, hud, hucomp⟩ := compose_ok had hu
    refine ⟨u, hu, compose_ok_iff.mpr ⟨hud, hcd, ?_⟩⟩
    rw [htd, hucomp]

theorem composeRight_ok : composeRight a b c = .ok t ↔ IsTripleComposite a b c t := by
  unfold composeRight
  rw [bind_ok]
  constructor
  · rintro ⟨u, hu, ht⟩
    obtain ⟨had, hud, htd⟩ := compose_ok_iff.mp ht
    obtain ⟨hbd, hcd, hucomp⟩ := compose_ok_iff.mp hu
    rw [hud] at hbd hcd hucomp
    refine ⟨had, hbd, hcd, ?_⟩
    rw [htd, hucomp, comp_assoc]
  · rintro ⟨had, hbd, hcd, htd⟩
    rw [comp_assoc] at htd
    obtain ⟨u, hu⟩ := exists_compose_right hbd hcd rfl htd
    obtain ⟨-, hud, hucomp⟩ := compose_ok hbd hu
    refine ⟨u, hu, compose_ok_iff.mpr ⟨had, hud, ?_⟩⟩
    rw [htd, hucomp]

/--
**Guarded composition is associative as a partial operation.** The two bracketings of
three transitions fail together, or succeed with the same transition.
-/
theorem composeAffineGuards_assoc (a b c : AffineGuardTransition) :
    (∃ t, composeLeft a b c = .ok t ∧ composeRight a b c = .ok t)
      ∨ ((∃ e, composeLeft a b c = .error e) ∧ ∃ e, composeRight a b c = .error e) := by
  cases hl : composeLeft a b c with
  | ok t =>
      have hr := composeRight_ok.mpr (composeLeft_ok.mp hl)
      exact .inl ⟨t, rfl, hr⟩
  | error e =>
      cases hr : composeRight a b c with
      | ok t =>
          have hl' := composeLeft_ok.mpr (composeRight_ok.mp hr)
          exact absurd (hl.symm.trans hl') (by simp)
      | error e' => exact .inr ⟨⟨e, rfl⟩, ⟨e', rfl⟩⟩

end AttestedCompute.Affine
