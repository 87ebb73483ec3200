import Mathlib

/-!
# Machine arithmetic that remembers whether it was exact

A C program computes with integers of fixed width. Unsigned results are reduced, signed results
that do not fit are undefined, and a division by zero is undefined too. A computation here is its
value together with one bit: whether every operation on the way gave its exact integer result.
An exact computation is `pure` of that result, so exactness is an equation to rewrite with.
-/

/-- A value computed by machine operations, and whether each of them was exact. -/
structure Machine (α : Type*) where
  value : α
  exact : Bool
  deriving DecidableEq, Repr

namespace Machine

universe u

variable {α β : Type u}

@[ext] theorem ext {x y : Machine α} (hvalue : x.value = y.value) (hexact : x.exact = y.exact) :
    x = y := by
  rcases x with ⟨a, p⟩
  rcases y with ⟨b, q⟩
  cases hvalue
  cases hexact
  rfl

instance : Monad Machine where
  pure a := ⟨a, true⟩
  bind x f := ⟨(f x.value).value, x.exact && (f x.value).exact⟩

@[simp] theorem pure_value (a : α) : (pure a : Machine α).value = a := rfl

@[simp] theorem pure_exact (a : α) : (pure a : Machine α).exact = true := rfl

@[simp] theorem bind_value (x : Machine α) (f : α → Machine β) :
    (x >>= f).value = (f x.value).value := rfl

@[simp] theorem bind_exact (x : Machine α) (f : α → Machine β) :
    (x >>= f).exact = (x.exact && (f x.value).exact) := rfl

instance : LawfulMonad Machine :=
  LawfulMonad.mk' Machine (fun x => ext rfl (Bool.and_true x.exact))
    (fun a f => ext rfl (Bool.true_and (f a).exact))
    (fun x _ _ => ext rfl (Bool.and_assoc x.exact _ _))

/-- **A computation with the exact bit set is `pure` of its value.** -/
theorem eq_pure_iff {x : Machine α} {a : α} : x = pure a ↔ x.value = a ∧ x.exact = true :=
  ⟨fun h => by rw [h]; exact ⟨rfl, rfl⟩, fun h => ext h.1 h.2⟩

/-- What follows an operation that was not exact is not exact. -/
theorem bind_inexact (a : α) (f : α → Machine β) :
    ((⟨a, false⟩ : Machine α) >>= f) = ⟨(f a).value, false⟩ := rfl

/-- **A list of exact computations** is exact, and gives their values. -/
theorem mapM_eq {f : α → Machine β} {g : α → β} {l : List α} (h : ∀ x ∈ l, f x = pure (g x)) :
    l.mapM f = pure (l.map g) := by
  induction l with
  | nil => rfl
  | cons x xs ih =>
      rw [List.mapM_cons, h x List.mem_cons_self, pure_bind,
        ih fun y hy => h y (List.mem_cons_of_mem x hy), pure_bind]
      rfl

/-- The same where only a property of each value is known. -/
theorem mapM_forall {f : α → Machine β} {l : List α} {p : β → Prop} {q : α → Prop}
    (h : ∀ x ∈ l, ∃ y, f x = pure y ∧ (p y ↔ q x)) :
    ∃ ys, l.mapM f = pure ys ∧ ((∀ y ∈ ys, p y) ↔ ∀ x ∈ l, q x) := by
  induction l with
  | nil => exact ⟨[], rfl, iff_of_true (List.forall_mem_nil p) (List.forall_mem_nil q)⟩
  | cons x xs ih =>
      obtain ⟨y, hy, hiff⟩ := h x List.mem_cons_self
      obtain ⟨ys, hys, hall⟩ := ih fun z hz => h z (List.mem_cons_of_mem x hz)
      refine ⟨y :: ys, ?_, ?_⟩
      · rw [List.mapM_cons, hy, pure_bind, hys, pure_bind]
      · rw [List.forall_mem_cons, List.forall_mem_cons, hiff, hall]

/-! ## Operations -/

/-- An unsigned result of `w` bits. -/
def unsigned (w : ℕ) (x : ℤ) : Machine ℤ := ⟨x % 2 ^ w, decide (0 ≤ x ∧ x < 2 ^ w)⟩

/-- A signed result of `w + 1` bits; outside its range the two's complement value stands for what
the language leaves undefined. -/
def signed (w : ℕ) (x : ℤ) : Machine ℤ :=
  ⟨Int.bmod x (2 ^ (w + 1)), decide (-2 ^ w ≤ x ∧ x < 2 ^ w)⟩

/-- A division, which needs a divisor other than zero. -/
def quotient [Div α] [Zero α] [DecidableEq α] (a b : α) : Machine α := ⟨a / b, decide (b ≠ 0)⟩

theorem unsigned_eq {w : ℕ} {x : ℤ} (hlo : 0 ≤ x) (hhi : x < 2 ^ w) : unsigned w x = pure x :=
  ext (Int.emod_eq_of_lt hlo hhi) (decide_eq_true ⟨hlo, hhi⟩)

theorem signed_eq {w : ℕ} {x : ℤ} (hlo : -2 ^ w ≤ x) (hhi : x < 2 ^ w) : signed w x = pure x := by
  refine ext ?_ (decide_eq_true ⟨hlo, hhi⟩)
  have hpow : ((2 ^ (w + 1) : ℕ) : ℤ) = 2 * 2 ^ w := by
    rw [Nat.pow_succ']
    push_cast
    rfl
  change Int.bmod x (2 ^ (w + 1)) = x
  rw [Int.bmod_eq_of_le]
  · rw [hpow]
    omega
  · rw [hpow]
    omega

theorem quotient_eq [Div α] [Zero α] [DecidableEq α] {a b : α} (h : b ≠ 0) :
    quotient a b = pure (a / b) := ext rfl (decide_eq_true h)

end Machine
