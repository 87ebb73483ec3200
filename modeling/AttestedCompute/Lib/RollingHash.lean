import Mathlib.Tactic.Ring
import Mathlib.Data.Nat.ModEq
import AttestedCompute.Lib.Positional

/-!
# Polynomial commitments to sequences

The commitment to a sequence of numbers is their base-`b` value modulo `m`. The commitment to
two sequences in a row is computed from both commitments and the length of the second one, so
any grouping of the sequence gives the same result.
-/

namespace RollingHash

variable {b m : Nat}

/-- The commitment to a sequence. -/
def commit (b m : Nat) (leaves : List Nat) : Nat := Positional.value b leaves % m

/-- The commitment to a sequence followed by one of the given length. -/
def join (b m left count right : Nat) : Nat := (left * (b ^ count % m) + right) % m

theorem join_lt (hm : 0 < m) (left count right : Nat) : join b m left count right < m :=
  Nat.mod_lt _ hm

@[simp] theorem join_mod (left count right : Nat) :
    join b m left count right % m = join b m left count right := Nat.mod_mod _ _

theorem join_modEq (left count right : Nat) :
    join b m left count right ≡ left * b ^ count + right [MOD m] :=
  (Nat.mod_modEq _ _).trans (((Nat.ModEq.refl left).mul (Nat.mod_modEq _ _)).add_right right)

/-- Joining is associative. -/
theorem join_assoc (x y z p q : Nat) :
    join b m (join b m x p y) q z = join b m x (p + q) (join b m y q z) := by
  have hleft := join_modEq (b := b) (m := m) (join b m x p y) q z
  have hinner := ((join_modEq (b := b) (m := m) x p y).mul_right (b ^ q)).add_right z
  have hright := join_modEq (b := b) (m := m) x (p + q) (join b m y q z)
  have houter := (join_modEq (b := b) (m := m) y q z).add_left (x * b ^ (p + q))
  have hmiddle : (x * b ^ p + y) * b ^ q + z = x * b ^ (p + q) + (y * b ^ q + z) := by ring
  have hmod := (hleft.trans hinner).trans (hmiddle ▸ (hright.trans houter).symm)
  rwa [Nat.ModEq, join_mod, join_mod] at hmod

/-- **Joining commitments commits to the concatenation.** -/
theorem join_commit (xs ys : List Nat) :
    join b m (commit b m xs) ys.length (commit b m ys) = commit b m (xs ++ ys) := by
  have hjoin := join_modEq (b := b) (m := m) (commit b m xs) ys.length (commit b m ys)
  have hparts : commit b m xs * b ^ ys.length + commit b m ys
      ≡ Positional.value b xs * b ^ ys.length + Positional.value b ys [MOD m] :=
    ((Nat.mod_modEq _ _).mul_right _).add (Nat.mod_modEq _ _)
  have hmod := hjoin.trans hparts
  rwa [← Positional.value_append, Nat.ModEq, join_mod] at hmod

end RollingHash
