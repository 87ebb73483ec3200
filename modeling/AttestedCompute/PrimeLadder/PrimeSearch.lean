import AttestedCompute.PrimeLadder.RangeFile
import Mathlib.Order.Bounds.Basic

/-!
# Searching for direct primes

`_next_u64_prime` and `_largest_direct_prime` of `tg_verifier/goldbach_campaign.py`. Both walk
over the odd numbers and treat 2 apart: the least prime from a number on, and the largest one
strictly between two numbers, as far as the 64-bit test reaches.
-/

namespace AttestedCompute.PrimeLadder

/-- `n | 1` -/
def orOne (n : Int) : Int := if n % 2 = 0 then n + 1 else n

/-- The loop of `_next_u64_prime`. -/
def searchUp (isPrime : Int → Bool) (candidate : Int) : Checked Int :=
  if candidate ≤ MAX_UINT64 then
    if isPrime candidate = true then .ok candidate else searchUp isPrime (candidate + 2)
  else fail "Pocklington grid factor exceeded the 64-bit proof domain"
termination_by (MAX_UINT64 + 1 - candidate).toNat

/-- `_next_u64_prime` -/
def nextU64Prime (isPrime : Int → Bool) (start : Int) : Checked Int :=
  let candidate := max 2 start
  if candidate = 2 then .ok 2 else searchUp isPrime (orOne candidate)

/-- The loop of `_largest_direct_prime`. -/
def searchDown (isPrime : Int → Bool) (lowerExclusive candidate : Int) : Option Rung :=
  if lowerExclusive < candidate then
    if candidate ≤ MAX_UINT64 ∧ isPrime candidate = true then
      some ⟨candidate, .direct64, none, none⟩
    else searchDown isPrime lowerExclusive (candidate - 2)
  else none
termination_by (candidate - lowerExclusive).toNat

/-- `_largest_direct_prime` -/
def largestDirectPrime (isPrime : Int → Bool) (lowerExclusive upperExclusive : Int) : Option Rung :=
  if upperExclusive ≤ lowerExclusive + 1 then none
  else if upperExclusive - 1 = 2 ∧ lowerExclusive < 2 then some ⟨2, .direct64, none, none⟩
  else
    let candidate := orOne (upperExclusive - 1)
    searchDown isPrime lowerExclusive
      (if upperExclusive ≤ candidate then candidate - 2 else candidate)

/-! ## The loops -/

/-- `is_prime_bounded` decides primality exactly below `2 ^ 64`, and rejects all other numbers. -/
def DecidesPrimes (isPrime : Int → Bool) : Prop :=
  ∀ n : Int, isPrime n = true ↔ n ≤ MAX_UINT64 ∧ 0 ≤ n ∧ n.toNat.Prime

/-- The primes that the test knows. -/
def DirectPrime (n : Int) : Prop := n ≤ MAX_UINT64 ∧ 0 ≤ n ∧ n.toNat.Prime

theorem DirectPrime.two_or_odd {n : Int} (h : DirectPrime n) : n = 2 ∨ 3 ≤ n ∧ n % 2 = 1 := by
  obtain ⟨-, hnonneg, hprime⟩ := h
  have htwo := hprime.two_le
  rcases hprime.eq_two_or_odd with heq | hodd
  · omega
  · omega

theorem directPrime_two : DirectPrime 2 := ⟨by decide, by decide, Nat.prime_two⟩

theorem directPrime_three : DirectPrime 3 := ⟨by decide, by decide, Nat.prime_three⟩

theorem orOne_odd (n : Int) : orOne n % 2 = 1 ∧ n ≤ orOne n ∧ orOne n ≤ n + 1 := by
  unfold orOne
  split <;> omega

/-- The loop upward finds the least odd prime from its start. -/
theorem searchUp_ok {isPrime : Int → Bool} (hprime : DecidesPrimes isPrime) {candidate n : Int}
    (hodd : candidate % 2 = 1) :
    searchUp isPrime candidate = .ok n ↔
      IsLeast {q | candidate ≤ q ∧ q % 2 = 1 ∧ DirectPrime q} n := by
  fun_induction searchUp isPrime candidate with
  | case1 c hle hfound =>
      have hc : DirectPrime c := (hprime c).mp hfound
      have hleast : IsLeast {q | c ≤ q ∧ q % 2 = 1 ∧ DirectPrime q} c :=
        ⟨⟨le_refl c, hodd, hc⟩, fun q hq => hq.1⟩
      constructor
      · intro h
        exact Except.ok.inj h ▸ hleast
      · intro h
        rw [hleast.unique h]
  | case2 c hle hnot ih =>
      have hc : ¬ DirectPrime c := fun h => hnot ((hprime c).mpr h)
      have hset : {q : Int | c ≤ q ∧ q % 2 = 1 ∧ DirectPrime q}
          = {q | c + 2 ≤ q ∧ q % 2 = 1 ∧ DirectPrime q} := by
        ext q
        constructor
        · rintro ⟨hq, hqOdd, hqPrime⟩
          have hne : q ≠ c := fun heq => hc (heq ▸ hqPrime)
          exact ⟨by omega, hqOdd, hqPrime⟩
        · rintro ⟨hq, hqOdd, hqPrime⟩
          exact ⟨by omega, hqOdd, hqPrime⟩
      rw [hset]
      exact ih (by omega)
  | case3 c hlarge =>
      constructor
      · intro h
        exact absurd h (by simp [fail])
      · rintro ⟨⟨hle, -, hmax, -⟩, -⟩
        omega

/-- The loop downward finds the largest odd prime up to its start. -/
theorem searchDown_eq_some {isPrime : Int → Bool} (hprime : DecidesPrimes isPrime)
    {lower candidate n : Int} (hodd : candidate % 2 = 1) :
    searchDown isPrime lower candidate = some ⟨n, .direct64, none, none⟩ ↔
      IsGreatest {q | lower < q ∧ q ≤ candidate ∧ q % 2 = 1 ∧ DirectPrime q} n := by
  fun_induction searchDown isPrime lower candidate with
  | case1 c hlow hfound =>
      have hc : DirectPrime c := (hprime c).mp hfound.2
      have hgreatest : IsGreatest {q | lower < q ∧ q ≤ c ∧ q % 2 = 1 ∧ DirectPrime q} c :=
        ⟨⟨hlow, le_refl c, hodd, hc⟩, fun q hq => hq.2.1⟩
      constructor
      · intro h
        have heq : c = n := congrArg Rung.number (Option.some.inj h)
        exact heq ▸ hgreatest
      · intro h
        rw [hgreatest.unique h]
  | case2 c hlow hnot ih =>
      have hc : ¬ DirectPrime c := fun h => hnot ⟨h.1, (hprime c).mpr h⟩
      have hset : {q : Int | lower < q ∧ q ≤ c ∧ q % 2 = 1 ∧ DirectPrime q}
          = {q | lower < q ∧ q ≤ c - 2 ∧ q % 2 = 1 ∧ DirectPrime q} := by
        ext q
        constructor
        · rintro ⟨hq, hle, hqOdd, hqPrime⟩
          have hne : q ≠ c := fun heq => hc (heq ▸ hqPrime)
          exact ⟨hq, by omega, hqOdd, hqPrime⟩
        · rintro ⟨hq, hle, hqOdd, hqPrime⟩
          exact ⟨hq, by omega, hqOdd, hqPrime⟩
      rw [hset]
      exact ih (by omega)
  | case3 c hlow =>
      constructor
      · intro h
        exact absurd h (by simp)
      · rintro ⟨⟨hlt, hle, -⟩, -⟩
        omega

/-- What the loop downward returns is a direct rung. -/
theorem searchDown_direct {isPrime : Int → Bool} {lower candidate : Int} {rung : Rung}
    (h : searchDown isPrime lower candidate = some rung) :
    rung = ⟨rung.number, .direct64, none, none⟩ := by
  fun_induction searchDown isPrime lower candidate with
  | case1 c hlow hfound => rw [← Option.some.inj h]
  | case2 c hlow hnot ih => exact ih h
  | case3 c hlow => exact absurd h (by simp)

/-! ## The searches -/

theorem nextU64Prime_ok {isPrime : Int → Bool} (hprime : DecidesPrimes isPrime) {start n : Int} :
    nextU64Prime isPrime start = .ok n ↔ IsLeast {q | start ≤ q ∧ DirectPrime q} n := by
  unfold nextU64Prime
  dsimp only
  split
  · rename_i hsmall
    have hleast : IsLeast {q | start ≤ q ∧ DirectPrime q} 2 := by
      refine ⟨⟨by omega, directPrime_two⟩, fun q hq => ?_⟩
      rcases hq.2.two_or_odd with heq | hodd
      · omega
      · omega
    constructor
    · intro h
      exact Except.ok.inj h ▸ hleast
    · intro h
      rw [hleast.unique h]
  · rename_i hlarge
    have hone := orOne_odd (max 2 start)
    have hset : {q : Int | start ≤ q ∧ DirectPrime q}
        = {q | orOne (max 2 start) ≤ q ∧ q % 2 = 1 ∧ DirectPrime q} := by
      ext q
      constructor
      · rintro ⟨hq, hqPrime⟩
        have hcases := hqPrime.two_or_odd
        exact ⟨by omega, by omega, hqPrime⟩
      · rintro ⟨hq, hqOdd, hqPrime⟩
        exact ⟨by omega, hqPrime⟩
    rw [hset]
    exact searchUp_ok hprime hone.1

theorem largestDirectPrime_eq_some {isPrime : Int → Bool} (hprime : DecidesPrimes isPrime)
    {lower upper n : Int} :
    largestDirectPrime isPrime lower upper = some ⟨n, .direct64, none, none⟩ ↔
      IsGreatest {q | lower < q ∧ q < upper ∧ DirectPrime q} n := by
  unfold largestDirectPrime
  split
  · rename_i hempty
    constructor
    · intro h
      exact absurd h (by simp)
    · rintro ⟨⟨hlow, hhigh, -⟩, -⟩
      omega
  split
  · rename_i htwo
    have hgreatest : IsGreatest {q | lower < q ∧ q < upper ∧ DirectPrime q} 2 :=
      ⟨⟨htwo.2, by omega, directPrime_two⟩, fun q hq => by have := hq.2.1; omega⟩
    constructor
    · intro h
      have heq : 2 = n := congrArg Rung.number (Option.some.inj h)
      exact heq ▸ hgreatest
    · intro h
      rw [hgreatest.unique h]
  · rename_i hnotTwo
    have hone := orOne_odd (upper - 1)
    set top := if upper ≤ orOne (upper - 1) then orOne (upper - 1) - 2 else orOne (upper - 1)
      with htop
    have hodd : top % 2 = 1 := by
      rw [htop]
      split <;> omega
    have hreach : ∀ q : Int, q % 2 = 1 → (q < upper ↔ q ≤ top) := by
      intro q hq
      rw [htop]
      split <;> omega
    rw [searchDown_eq_some hprime hodd]
    -- 2 is never the largest: above it there is 3, or nothing below the bound is prime
    constructor
    · rintro ⟨⟨hlow, hle, hnOdd, hnPrime⟩, hmax⟩
      refine ⟨⟨hlow, (hreach n hnOdd).mpr hle, hnPrime⟩, fun q hq => ?_⟩
      rcases hq.2.2.two_or_odd with heq | hqOdd
      · have := hnPrime.two_or_odd
        omega
      · exact hmax ⟨hq.1, (hreach q hqOdd.2).mp hq.2.1, hqOdd.2, hq.2.2⟩
    · rintro ⟨⟨hlow, hhigh, hnPrime⟩, hmax⟩
      have hnOdd : n % 2 = 1 := by
        rcases hnPrime.two_or_odd with heq | hnOdd
        · have hthree := hmax (show (3 : Int) ∈ {q | lower < q ∧ q < upper ∧ DirectPrime q} from
            ⟨by omega, by omega, directPrime_three⟩)
          omega
        · exact hnOdd.2
      refine ⟨⟨hlow, (hreach n hnOdd).mp hhigh, hnOdd, hnPrime⟩, fun q hq => ?_⟩
      exact hmax ⟨hq.1, (hreach q hq.2.2.1).mpr hq.2.1, hq.2.2.2⟩

theorem largestDirectPrime_direct {isPrime : Int → Bool} {lower upper : Int} {rung : Rung}
    (h : largestDirectPrime isPrime lower upper = some rung) :
    rung = ⟨rung.number, .direct64, none, none⟩ := by
  unfold largestDirectPrime at h
  split at h
  · exact absurd h (by simp)
  split at h
  · rw [← Option.some.inj h]
  · exact searchDown_direct h

/--
**The direct searches are exact.** With a test that decides the primes below `2 ^ 64`, the search
upward returns the least of them from its start and fails only if there is none; the search
downward returns the largest of them strictly between its bounds, or nothing if there is none.
-/
theorem direct_searches_exact {isPrime : Int → Bool} (hprime : DecidesPrimes isPrime) :
    (∀ start n, nextU64Prime isPrime start = .ok n ↔ IsLeast {q | start ≤ q ∧ DirectPrime q} n)
    ∧ ∀ lower upper rung, largestDirectPrime isPrime lower upper = some rung ↔
      rung = ⟨rung.number, .direct64, none, none⟩
        ∧ IsGreatest {q | lower < q ∧ q < upper ∧ DirectPrime q} rung.number := by
  refine ⟨fun start n => nextU64Prime_ok hprime, fun lower upper rung => ?_⟩
  constructor
  · intro h
    have hdirect := largestDirectPrime_direct h
    rw [hdirect] at h
    exact ⟨hdirect, (largestDirectPrime_eq_some hprime).mp h⟩
  · rintro ⟨hdirect, hgreatest⟩
    rw [hdirect]
    exact (largestDirectPrime_eq_some hprime).mpr hgreatest

theorem direct_searches_exact_small :
    nextU64Prime (fun n => decide (n ≤ MAX_UINT64 ∧ 0 ≤ n ∧ n.toNat.Prime)) 8 = .ok 11 := by
  have hexact := @direct_searches_exact
    (fun n => decide (n ≤ MAX_UINT64 ∧ 0 ≤ n ∧ n.toNat.Prime)) fun n => decide_eq_true_iff
  refine (hexact.1 8 11).mpr ⟨⟨by decide, by decide, by decide, show Nat.Prime 11 by norm_num⟩,
    fun q hq => ?_⟩
  obtain ⟨hlow, -, hnonneg, hqPrime⟩ := hq
  obtain ⟨q, rfl⟩ := Int.eq_ofNat_of_zero_le hnonneg
  rw [Int.toNat_natCast] at hqPrime
  by_contra hlt
  have hcases : q = 8 ∨ q = 9 ∨ q = 10 := by omega
  obtain rfl | rfl | rfl := hcases
  · exact absurd hqPrime (by norm_num)
  · exact absurd hqPrime (by norm_num)
  · exact absurd hqPrime (by norm_num)

end AttestedCompute.PrimeLadder
