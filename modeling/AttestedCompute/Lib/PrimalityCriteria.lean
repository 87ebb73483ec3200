import Mathlib

/-!
# Modular powers and the criteria of Pocklington and Proth

A number is prime when a large enough part of its predecessor is factored and every
prime of that part has a base whose order carries the full power of the prime. The
part must exceed the square root of the number; it need not be coprime to the
cofactor.

`powMod` is exponentiation by squaring, so that the bases of large numbers can be
evaluated.
-/

namespace PrimalityCriteria

/-! ## Modular powers -/

def powModLoop (modulus : Nat) : Nat → Nat → Nat → Nat → Nat
  | 0, _, _, acc => acc
  | fuel + 1, exponent, base, acc =>
      if exponent = 0 then acc
      else
        powModLoop modulus fuel (exponent / 2) (base * base % modulus)
          (if exponent % 2 = 1 then acc * base % modulus else acc)

/-- `base ^ exponent % modulus` -/
def powMod (base exponent modulus : Nat) : Nat :=
  powModLoop modulus (exponent.log2 + 1) exponent (base % modulus) (1 % modulus)

theorem powModLoop_eq {modulus : Nat} {fuel exponent base acc : Nat} (hfuel : exponent < 2 ^ fuel)
    (hacc : acc % modulus = acc) :
    powModLoop modulus fuel exponent base acc = acc * base ^ exponent % modulus := by
  induction fuel generalizing exponent base acc with
  | zero =>
      obtain rfl : exponent = 0 := by simpa using hfuel
      rw [powModLoop, pow_zero, mul_one, hacc]
  | succ fuel ih =>
      unfold powModLoop
      split
      · rename_i h0
        rw [h0, pow_zero, mul_one, hacc]
      rw [pow_succ] at hfuel
      have hpow : base ^ exponent = base ^ (exponent % 2) * (base * base) ^ (exponent / 2) := by
        rw [← pow_two, ← pow_mul, ← pow_add, Nat.mod_add_div]
      rw [ih (by omega) (by split <;> [exact Nat.mod_mod _ _; exact hacc]), Nat.mul_mod,
        ← Nat.pow_mod, ← Nat.mul_mod, hpow]
      split
      · rename_i hodd
        rw [hodd, pow_one, Nat.mul_mod, Nat.mod_mod, ← Nat.mul_mod, mul_assoc]
      · rename_i hodd
        rw [show exponent % 2 = 0 by omega, pow_zero, one_mul]

theorem powMod_eq (base exponent modulus : Nat) :
    powMod base exponent modulus = base ^ exponent % modulus := by
  unfold powMod
  rw [powModLoop_eq Nat.lt_log2_self (Nat.mod_mod _ _), Nat.mul_mod, ← Nat.pow_mod, Nat.mod_mod,
    ← Nat.mul_mod, one_mul]

/-! ## Pocklington -/

/-- A power of a prime that divides `n` divides every divisor of `n` that is not a divisor
of `n / q`. -/
theorem prime_pow_dvd_of_not_dvd_div {n d q k : Nat} (hn : 0 < n) (hq : q.Prime) (hqn : q ^ k ∣ n)
    (hd : d ∣ n) (hnot : ¬ d ∣ n / q) : q ^ k ∣ d := by
  obtain ⟨c, rfl⟩ := hd
  have hqc : ¬ q ∣ c := by
    rintro ⟨e, rfl⟩
    refine hnot ⟨e, ?_⟩
    rw [mul_left_comm, Nat.mul_div_cancel_left _ hq.pos]
  exact ((hq.coprime_iff_not_dvd.mpr hqc).pow_left k).dvd_of_dvd_mul_right hqn

/-- The base `a` witnesses the prime `q` of `n - 1`. -/
def Witnesses (n q : Nat) (a : ℤ) : Prop :=
  a ^ (n - 1) ≡ 1 [ZMOD n] ∧ Int.gcd (a ^ ((n - 1) / q) - 1) n = 1

/-- Modulo a prime factor of `n`, the order of a witness carries every power of `q`. -/
theorem Witnesses.pow_dvd {n p q k : Nat} [Fact p.Prime] {a : ℤ} (h : Witnesses n q a)
    (hn : 1 < n) (hp : p ∣ n) (hq : q.Prime) (hqn : q ^ k ∣ n - 1) :
    q ^ k ∣ p - 1 := by
  obtain ⟨hone, hgcd⟩ := h
  have hdvd : (p : ℤ) ∣ n := Int.natCast_dvd_natCast.mpr hp
  have hpow : (a : ZMod p) ^ (n - 1) = 1 := by
    have := (ZMod.intCast_eq_intCast_iff _ _ p).mpr (hone.of_dvd hdvd)
    push_cast at this
    exact this
  have hne : (a : ZMod p) ^ ((n - 1) / q) ≠ 1 := by
    intro heq
    have hzero : ((a ^ ((n - 1) / q) - 1 : ℤ) : ZMod p) = 0 := by
      push_cast
      rw [heq, sub_self]
    have hpa := (ZMod.intCast_zmod_eq_zero_iff_dvd _ p).mp hzero
    have := Int.dvd_coe_gcd hpa hdvd
    rw [hgcd] at this
    exact (Fact.out : p.Prime).one_lt.ne' (Nat.dvd_one.mp (Int.natCast_dvd_natCast.mp this))
  have ha : (a : ZMod p) ≠ 0 := by
    intro h0
    rw [h0, zero_pow (by omega)] at hpow
    exact zero_ne_one hpow
  have hnot : ¬ orderOf (a : ZMod p) ∣ (n - 1) / q := fun h => hne (orderOf_dvd_iff_pow_eq_one.mp h)
  exact (prime_pow_dvd_of_not_dvd_div (by omega) hq hqn (orderOf_dvd_of_pow_eq_one hpow)
    hnot).trans (ZMod.orderOf_dvd_card_sub_one ha)

/-- **Pocklington's criterion.** -/
theorem prime_of_pocklington {n known : Nat} (hn : 1 < n) (hknown : known ∣ n - 1)
    (hsize : n < known * known)
    (hwitness : ∀ q, q.Prime → q ∣ known → ∃ a, Witnesses n q a) : n.Prime := by
  by_contra hprime
  have hp := Nat.minFac_prime (show n ≠ 1 by omega)
  have : Fact n.minFac.Prime := ⟨hp⟩
  have hdvd : known ∣ n.minFac - 1 := by
    rw [Nat.dvd_iff_prime_pow_dvd_dvd]
    intro q k hq hqk
    by_cases hk : k = 0
    · rw [hk, pow_zero]
      exact one_dvd _
    obtain ⟨a, ha⟩ := hwitness q hq ((dvd_pow_self q hk).trans hqk)
    exact ha.pow_dvd hn (Nat.minFac_dvd n) hq (hqk.trans hknown)
  -- so the least prime factor is beyond the square root
  have hle := Nat.le_of_dvd (Nat.sub_pos_of_lt hp.one_lt) hdvd
  have hsquare := Nat.minFac_sq_le_self (by omega) hprime
  rw [pow_two] at hsquare
  have := Nat.mul_le_mul hle hle
  have := Nat.mul_le_mul (Nat.sub_le n.minFac 1) (Nat.sub_le n.minFac 1)
  omega

/-! ## Proth -/

/-- **Proth's criterion.** The cofactor may be even. -/
theorem prime_of_proth {k e n : Nat} {a : ℤ} (he : 0 < e) (hk : 0 < k) (hsize : k < 2 ^ e)
    (hn : n = k * 2 ^ e + 1) (ha : a ^ ((n - 1) / 2) ≡ -1 [ZMOD n]) : n.Prime := by
  have htwo : 2 ∣ 2 ^ e := dvd_pow_self 2 he.ne'
  have hpred : n - 1 = k * 2 ^ e := by omega
  have heven : 2 ∣ n - 1 := hpred ▸ htwo.mul_left k
  have hn3 : 1 < n := by
    have := Nat.mul_pos hk (Nat.two_pow_pos e)
    omega
  refine @prime_of_pocklington n (2 ^ e) hn3 ⟨k, by rw [hpred, mul_comm]⟩ ?_ ?_
  · have := Nat.mul_le_mul_right (2 ^ e) (Nat.succ_le_of_lt hsize)
    have := Nat.one_lt_two_pow he.ne'
    rw [Nat.succ_eq_add_one, Nat.add_mul, one_mul] at *
    omega
  · intro q hq hqe
    obtain rfl := (Nat.prime_dvd_prime_iff_eq hq Nat.prime_two).mp (hq.dvd_of_dvd_pow hqe)
    refine ⟨a, ?_, ?_⟩
    · have hdouble : a ^ (n - 1) = (a ^ ((n - 1) / 2)) ^ 2 := by
        rw [← pow_mul, Nat.div_mul_cancel heven]
      rw [hdouble]
      exact (ha.pow 2).trans (by norm_num)
    · -- the difference is -2 modulo an odd number
      have hmod : (a ^ ((n - 1) / 2) - 1 : ℤ) ≡ -2 [ZMOD n] := ha.sub_right 1
      rw [← Int.gcd_emod, hmod, Int.gcd_emod, Int.neg_gcd, show (2 : ℤ) = ((2 : Nat) : ℤ) from rfl, Int.gcd_natCast_natCast]
      have hodd : Odd n := Nat.odd_iff.mpr (by omega)
      exact Nat.coprime_two_left.mpr hodd

/-- **Euler's criterion, where the Jacobi symbol is −1.** -/
theorem pow_half_of_jacobiSym {n : Nat} {a : ℤ} (hn : n.Prime) (hodd : n % 2 = 1)
    (h : jacobiSym a n = -1) : a ^ ((n - 1) / 2) ≡ -1 [ZMOD n] := by
  have : Fact n.Prime := ⟨hn⟩
  rw [← jacobiSym.legendreSym.to_jacobiSym] at h
  have heuler := legendreSym.eq_pow n a
  rw [h, show n / 2 = (n - 1) / 2 by omega] at heuler
  have : ((-1 : ℤ) : ZMod n) = ((a ^ ((n - 1) / 2) : ℤ) : ZMod n) := by
    push_cast
    push_cast at heuler
    exact heuler
  exact ((ZMod.intCast_eq_intCast_iff _ _ n).mp this).symm

end PrimalityCriteria
