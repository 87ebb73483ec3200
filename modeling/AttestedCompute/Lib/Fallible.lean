import Mathlib

/-!
# Fallible straight-line code and loops

Checkers are long sequences of guards, so what a proof needs of `Except` is one
inversion rule per construct: what a successful bind, a successful guard and a
successful loop each say, and one composition rule per construct for the faults that
must never happen.
-/

namespace Fallible

universe u

variable {ε : Type*} {α β : Type u}

/-- A successful bind is a success of both halves. -/
theorem bind_ok {x : Except ε α} {f : α → Except ε β} {b : β} :
    (x >>= f) = .ok b ↔ ∃ a, x = .ok a ∧ f a = .ok b := by
  cases x with
  | error e =>
      constructor
      · intro h; cases h
      · rintro ⟨a, h, _⟩; cases h
  | ok a =>
      constructor
      · intro h; exact ⟨a, rfl, h⟩
      · rintro ⟨a', ha, h⟩; cases ha; exact h

theorem ok_bind (a : α) (f : α → Except ε β) : (Except.ok a >>= f) = f a := rfl

@[simp] theorem pure_ok {a b : α} : (pure a : Except ε α) = .ok b ↔ a = b := by
  constructor
  · intro h; cases h; rfl
  · rintro rfl; rfl

/-- Refuse with `e` when `bad` holds. -/
def refuseIf (bad : Prop) [Decidable bad] (e : ε) : Except ε Unit :=
  if bad then .error e else .ok ()

@[simp] theorem refuseIf_ok {bad : Prop} [Decidable bad] {e : ε} {u : Unit} :
    refuseIf bad e = .ok u ↔ ¬ bad := by
  unfold refuseIf
  split
  · rename_i h; simp [h]
  · rename_i h; simp [h]

/-- A run whose result can be tested has a result. -/
theorem exists_ok_of_any {x : Except ε α} {p : α → Bool} (h : x.toOption.any p = true) :
    ∃ a, x = .ok a ∧ p a = true := by
  cases x with
  | error e => exact absurd h (by simp [Except.toOption])
  | ok a => exact ⟨a, rfl, h⟩

/-- A successful traversal for its effects accepts every item. -/
theorem forM_ok {f : α → Except ε Unit} {xs : List α} {u : Unit} :
    xs.forM f = .ok u ↔ ∀ x ∈ xs, f x = .ok () := by
  induction xs with
  | nil => simp
  | cons x xs ih =>
      change (f x >>= fun _ => xs.forM f) = .ok u ↔ _
      rw [bind_ok, List.forall_mem_cons, ih]
      constructor
      · intro h
        obtain ⟨_, hx, hxs⟩ := h
        exact ⟨hx, hxs⟩
      · intro h
        exact ⟨(), h⟩

/-- A successful traversal replaces every item by one result. -/
theorem mapM_ok {f : α → Except ε β} {xs : List α} {ys : List β} :
    xs.mapM f = .ok ys ↔ List.Forall₂ (fun x y => f x = .ok y) xs ys := by
  induction xs generalizing ys with
  | nil =>
      rw [List.mapM_nil, pure_ok, List.forall₂_nil_left_iff]
      exact eq_comm
  | cons x xs ih =>
      rw [List.mapM_cons, bind_ok, List.forall₂_cons_left_iff]
      simp only [bind_ok, pure_ok, ih]
      constructor
      · rintro ⟨y, hy, rest, hrest, rfl⟩
        exact ⟨y, rest, hy, hrest, rfl⟩
      · rintro ⟨y, rest, hy, hrest, rfl⟩
        exact ⟨y, hy, rest, hrest, rfl⟩

/-- Every result of a traversal comes from an item. -/
theorem mapM_ok_mem {f : α → Except ε β} {xs : List α} {ys : List β} (h : xs.mapM f = .ok ys)
    {y : β} (hy : y ∈ ys) : ∃ x ∈ xs, f x = .ok y := by
  have hall := mapM_ok.mp h
  clear h
  induction hall with
  | nil => cases hy
  | cons hfx _ ih =>
      rcases List.mem_cons.mp hy with rfl | hy
      · exact ⟨_, List.mem_cons_self, hfx⟩
      · obtain ⟨x, hx, hfx⟩ := ih hy
        exact ⟨x, List.mem_cons_of_mem _ hx, hfx⟩

/-! ## Runs that avoid a fault -/

/-- The run does not end in `e`. -/
def Avoids (e : ε) (x : Except ε α) : Prop := x ≠ .error e

theorem avoids_ok (e : ε) (a : α) : Avoids e (.ok a) := by
  intro h
  cases h

theorem avoids_error {e e' : ε} (h : e' ≠ e) : Avoids e (.error e' : Except ε α) := by
  intro heq
  exact h (Except.error.inj heq)

theorem avoids_bind {e : ε} {x : Except ε α} {f : α → Except ε β} (hx : Avoids e x)
    (hf : ∀ a, x = .ok a → Avoids e (f a)) : Avoids e (x >>= f) := by
  cases x with
  | error e' => exact avoids_error fun he => hx (congrArg Except.error he)
  | ok a => exact hf a rfl

theorem avoids_refuseIf {e e' : ε} (h : e' ≠ e) (bad : Prop) [Decidable bad] :
    Avoids e (refuseIf bad e') := by
  unfold refuseIf
  split
  · exact avoids_error h
  · exact avoids_ok e ()

/-- A loop avoids what its body avoids. -/
theorem avoids_foldlM {ι : Type*} {e : ε} {f : β → ι → Except ε β} (xs : List ι)
    (hf : ∀ b i, Avoids e (f b i)) (b : β) : Avoids e (xs.foldlM f b) := by
  induction xs generalizing b with
  | nil => exact avoids_ok e b
  | cons i rest ih =>
      rw [List.foldlM_cons]
      exact avoids_bind (hf b i) fun b' _ => ih b'

end Fallible
