import Mathlib

/-!
# The linear Möbius sieve

`mobius_linear` writes every composite number once, as its cofactor times its least prime factor.
Arrays are functions of the index; the sieve writes nothing above its limit.
-/

namespace AttestedCompute.Arithmetic

/-- The arrays of the sieve and the primes found so far. -/
structure MobiusSieve where
  mu : Nat → Int
  composite : Nat → Bool
  primes : List Nat

/-- The loop over the primes for one number. -/
def strikeMultiples (limit number : Nat) : List Nat → MobiusSieve → MobiusSieve
  | [], s => s
  | prime :: rest, s =>
      let product := number * prime
      if limit < product then s
      else
        let composite := Function.update s.composite product true
        if number % prime = 0 then
          { s with mu := Function.update s.mu product 0, composite := composite }
        else
          strikeMultiples limit number rest
            { s with mu := Function.update s.mu product (-s.mu number), composite := composite }

/-- A number that nothing struck is a prime, and becomes the last one found. -/
def findPrime (s : MobiusSieve) (number : Nat) : MobiusSieve :=
  if s.composite number then s
  else { s with primes := s.primes ++ [number], mu := Function.update s.mu number (-1) }

/-- One number of the outer loop. -/
def sieveNumber (limit : Nat) (s : MobiusSieve) (number : Nat) : MobiusSieve :=
  let s := findPrime s number
  strikeMultiples limit number s.primes s

/-- `mobius_linear`, for a limit that is at least 1. -/
def mobiusLinear (limit : Nat) : Nat → Int :=
  ((List.range' 2 (limit - 1)).foldl (sieveNumber limit)
    { mu := Function.update (fun _ => 0) 1 1, composite := fun _ => false, primes := [] }).mu

/-! ## One number strikes its products with the primes up to its least factor -/

/-- The product is the number times a prime that is at most its least factor. -/
def Strikes (limit number : Nat) (primes : List Nat) (m : Nat) : Prop :=
  ∃ p ∈ primes, p ≤ number.minFac ∧ m = number * p ∧ m ≤ limit

open ArithmeticFunction in
theorem moebius_mul_prime {n p : Nat} (hp : p.Prime) :
    moebius (n * p) = if p ∣ n then 0 else -moebius n := by
  split
  · rename_i hdvd
    refine moebius_eq_zero_of_not_squarefree fun hsquare => ?_
    have hunit := hsquare p (Nat.mul_dvd_mul_right hdvd p)
    exact hp.one_lt.ne' (Nat.isUnit_iff.mp hunit)
  · rename_i hdvd
    have hcoprime : Nat.Coprime n p := (hp.coprime_iff_not_dvd.mpr hdvd).symm
    rw [isMultiplicative_moebius.map_mul_of_coprime hcoprime, moebius_apply_prime hp, mul_neg_one]

theorem strikes_cons {limit number p m : Nat} {primes : List Nat} (hp : p ≤ number.minFac)
    (hlimit : number * p ≤ limit) :
    Strikes limit number (p :: primes) m ↔ m = number * p ∨ Strikes limit number primes m := by
  unfold Strikes
  constructor
  · intro h
    obtain ⟨a, ha, hle, hm, hml⟩ := h
    rcases List.mem_cons.mp ha with rfl | ha
    · exact .inl hm
    · exact .inr ⟨a, ha, hle, hm, hml⟩
  · intro h
    rcases h with hm | ⟨a, ha, hrest⟩
    · exact ⟨p, List.mem_cons_self, hp, hm, hm ▸ hlimit⟩
    · exact ⟨a, List.mem_cons_of_mem p ha, hrest⟩

/-- Nothing is struck past the first product above the limit. -/
theorem not_strikes_of_lt {limit number p m : Nat} {primes : List Nat}
    (hsorted : (p :: primes).Pairwise (· < ·)) (hlimit : limit < number * p) :
    ¬ Strikes limit number (p :: primes) m := by
  intro h
  obtain ⟨a, ha, _, hm, hml⟩ := h
  have hpa : p ≤ a := by
    rcases List.mem_cons.mp ha with rfl | ha
    · exact le_rfl
    · exact (List.rel_of_pairwise_cons hsorted ha).le
  have := Nat.mul_le_mul_left number hpa
  omega

/-- Nothing is struck past the least factor of the number. -/
theorem not_strikes_of_minFac {limit number m : Nat} {primes : List Nat}
    (hsorted : (number.minFac :: primes).Pairwise (· < ·)) : ¬ Strikes limit number primes m := by
  intro h
  obtain ⟨a, ha, hle, _⟩ := h
  have := List.rel_of_pairwise_cons hsorted ha
  omega

/-- **What the loop over the primes writes.** -/
theorem strikeMultiples_spec {limit number : Nat} (hnumber : 2 ≤ number) {primes : List Nat}
    (hprime : ∀ p ∈ primes, p.Prime) (hsorted : primes.Pairwise (· < ·))
    (hleast : number.minFac ∈ primes) {s : MobiusSieve}
    (hmu : s.mu number = ArithmeticFunction.moebius number) :
    (strikeMultiples limit number primes s).primes = s.primes ∧
    (∀ m, (strikeMultiples limit number primes s).composite m = true ↔
      s.composite m = true ∨ Strikes limit number primes m) ∧
    (∀ m, Strikes limit number primes m →
      (strikeMultiples limit number primes s).mu m = ArithmeticFunction.moebius m) ∧
    ∀ m, ¬ Strikes limit number primes m →
      (strikeMultiples limit number primes s).mu m = s.mu m := by
  induction primes generalizing s with
  | nil => cases hleast
  | cons p rest ih =>
      have hp := hprime p List.mem_cons_self
      have hple : p ≤ number.minFac := by
        rcases List.mem_cons.mp hleast with h | h
        · exact h.ge
        · exact (List.rel_of_pairwise_cons hsorted h).le
      unfold strikeMultiples
      dsimp only
      split
      · rename_i hlimit
        have hnone : ∀ m, ¬ Strikes limit number (p :: rest) m := fun m =>
          not_strikes_of_lt hsorted hlimit
        exact ⟨rfl, fun m => by simp [hnone m], fun m h => absurd h (hnone m), fun m _ => rfl⟩
      rename_i hlimit
      have hstrikes := fun m => @strikes_cons limit number p m rest hple (not_lt.mp hlimit)
      split
      · -- the least factor itself: the product is not squarefree, and the loop ends
        rename_i hdvd
        have hdvd := Nat.dvd_of_mod_eq_zero hdvd
        obtain rfl : p = number.minFac := le_antisymm hple (Nat.minFac_le_of_dvd hp.two_le hdvd)
        have hnone : ∀ m, ¬ Strikes limit number rest m := fun m => not_strikes_of_minFac hsorted
        refine ⟨rfl, fun m => ?_, fun m h => ?_, fun m h => ?_⟩
        · rw [hstrikes m]
          by_cases hm : m = number * number.minFac
          · simp [hm]
          · simp [hm, hnone m]
        · rcases (hstrikes m).mp h with rfl | h
          · rw [moebius_mul_prime hp, if_pos hdvd]
            exact Function.update_self ..
          · exact absurd h (hnone m)
        · exact Function.update_of_ne (fun hm => h ((hstrikes m).mpr (.inl hm))) _ _
      · -- a smaller prime: the sign changes, and the number's own entry is left alone
        rename_i hdvd
        have hdvd : ¬ p ∣ number := fun h => hdvd (Nat.mod_eq_zero_of_dvd h)
        have hrest : number.minFac ∈ rest := by
          rcases List.mem_cons.mp hleast with h | h
          · exact absurd (h ▸ Nat.minFac_dvd number) hdvd
          · exact h
        have hself : number ≠ number * p := by
          have := Nat.mul_le_mul_left number hp.two_le
          omega
        have hmu' : Function.update s.mu (number * p) (-s.mu number) number =
            ArithmeticFunction.moebius number := by
          rw [Function.update_of_ne hself, hmu]
        obtain ⟨hprimes, hcomposite, hin, hout⟩ :=
          @ih (fun q hq => hprime q (List.mem_cons_of_mem p hq)) (List.Pairwise.of_cons hsorted)
            hrest ⟨Function.update s.mu (number * p) (-s.mu number),
              Function.update s.composite (number * p) true, s.primes⟩ hmu'
        refine ⟨hprimes, fun m => ?_, fun m h => ?_, fun m h => ?_⟩
        · rw [hcomposite m, hstrikes m]
          by_cases hm : m = number * p
          · simp [hm]
          · simp [hm]
        · by_cases hr : Strikes limit number rest m
          · exact hin m hr
          · rcases (hstrikes m).mp h with rfl | h
            · rw [hout _ hr, moebius_mul_prime hp, if_neg hdvd, ← hmu]
              exact Function.update_self ..
            · exact absurd h hr
        · have hr : ¬ Strikes limit number rest m := fun hr => h ((hstrikes m).mpr (.inr hr))
          rw [hout m hr]
          exact Function.update_of_ne (fun hm => h ((hstrikes m).mpr (.inl hm))) _ _

/-! ## The sieve up to a frontier -/

/-- The number is a smaller one times a prime that is at most its least factor. -/
def StruckBelow (limit frontier m : Nat) : Prop :=
  m ≤ limit ∧ ∃ k p, 2 ≤ k ∧ k < frontier ∧ p.Prime ∧ p ≤ k.minFac ∧ m = k * p

/-- What the arrays hold when all numbers below the frontier are done. -/
structure SievedBelow (limit frontier : Nat) (s : MobiusSieve) : Prop where
  sorted : s.primes.Pairwise (· < ·)
  primes : ∀ p, p ∈ s.primes ↔ p.Prime ∧ p < frontier
  composite : ∀ m, s.composite m = true ↔ StruckBelow limit frontier m
  below : ∀ m, 1 ≤ m → m < frontier → s.mu m = ArithmeticFunction.moebius m
  struck : ∀ m, StruckBelow limit frontier m → s.mu m = ArithmeticFunction.moebius m

/-- A number is struck before its turn exactly when it is not prime. -/
theorem struckBelow_self {limit n : Nat} (hn : 2 ≤ n) (hlimit : n ≤ limit) :
    StruckBelow limit n n ↔ ¬ n.Prime := by
  constructor
  · intro h hprime
    obtain ⟨_, k, p, hk, hkn, hp, _, hm⟩ := h
    exact Nat.not_prime_mul (by omega) hp.one_lt.ne' (hm ▸ hprime)
  · intro hprime
    have hmin := Nat.minFac_prime (show n ≠ 1 by omega)
    obtain ⟨k, hk⟩ := Nat.minFac_dvd n
    have hlt := (Nat.not_prime_iff_minFac_lt hn).mp hprime
    have hk2 : 2 ≤ k := by
      by_contra hk2
      interval_cases k <;> omega
    have hkn : k < n := by
      have := Nat.mul_le_mul_right k hmin.two_le
      omega
    -- a factor of the cofactor is a factor of the number
    have hle : n.minFac ≤ k.minFac :=
      Nat.minFac_le_of_dvd (Nat.minFac_prime (by omega)).two_le
        ((Nat.minFac_dvd k).trans ⟨n.minFac, by rw [mul_comm]; exact hk⟩)
    exact ⟨hlimit, k, n.minFac, hk2, hkn, hmin, hle, by rw [mul_comm]; exact hk⟩

theorem struckBelow_succ {limit n m : Nat} (hn : 2 ≤ n) :
    StruckBelow limit (n + 1) m ↔
      StruckBelow limit n m ∨ (m ≤ limit ∧ ∃ p, p.Prime ∧ p ≤ n.minFac ∧ m = n * p) := by
  constructor
  · intro h
    obtain ⟨hm, k, p, hk, hkn, hrest⟩ := h
    by_cases hlast : k = n
    · exact .inr ⟨hm, p, hlast ▸ hrest⟩
    · exact .inl ⟨hm, k, p, hk, by omega, hrest⟩
  · intro h
    rcases h with ⟨hm, k, p, hk, hkn, hrest⟩ | ⟨hm, p, hrest⟩
    · exact ⟨hm, k, p, hk, by omega, hrest⟩
    · exact ⟨hm, n, p, hn, by omega, hrest⟩

/-- The primes and the values once the number's own turn has begun. -/
structure FoundThrough (limit n : Nat) (s : MobiusSieve) : Prop where
  sorted : s.primes.Pairwise (· < ·)
  primes : ∀ p, p ∈ s.primes ↔ p.Prime ∧ p < n + 1
  composite : ∀ m, s.composite m = true ↔ StruckBelow limit n m
  through : ∀ m, 1 ≤ m → m < n + 1 → s.mu m = ArithmeticFunction.moebius m
  struck : ∀ m, StruckBelow limit n m → s.mu m = ArithmeticFunction.moebius m

theorem findPrime_spec {limit n : Nat} (hn : 2 ≤ n) (hlimit : n ≤ limit) {s : MobiusSieve}
    (h : SievedBelow limit n s) : FoundThrough limit n (findPrime s n) := by
  have hself := struckBelow_self hn hlimit
  unfold findPrime
  split
  · rename_i hcomposite
    have hstruck := (h.composite n).mp hcomposite
    have hprime := hself.mp hstruck
    refine ⟨h.sorted, fun p => ?_, h.composite, fun m hm hmn => ?_, h.struck⟩
    · rw [h.primes p]
      refine and_congr_right fun hp => ?_
      have : p ≠ n := fun hpn => hprime (hpn ▸ hp)
      omega
    · by_cases hmn' : m = n
      · exact hmn' ▸ h.struck n hstruck
      · exact h.below m hm (by omega)
  · rename_i hcomposite
    have hprime : n.Prime := by
      by_contra hprime
      exact hcomposite ((h.composite n).mpr (hself.mpr hprime))
    refine ⟨?_, fun p => ?_, h.composite, fun m hm hmn => ?_, fun m hm => ?_⟩
    · refine List.pairwise_append.mpr ⟨h.sorted, List.pairwise_singleton _ _, fun a ha b hb => ?_⟩
      rw [List.mem_singleton.mp hb]
      exact ((h.primes a).mp ha).2
    · rw [List.mem_append, h.primes p, List.mem_singleton]
      constructor
      · intro hp
        rcases hp with hp | rfl
        · exact ⟨hp.1, by omega⟩
        · exact ⟨hprime, by omega⟩
      · intro hp
        by_cases hpn : p = n
        · exact .inr hpn
        · exact .inl ⟨hp.1, by omega⟩
    · by_cases hmn' : m = n
      · rw [hmn', ArithmeticFunction.moebius_apply_prime hprime]
        exact Function.update_self ..
      · exact (Function.update_of_ne hmn' _ _).trans (h.below m hm (by omega))
    · have hmn : m ≠ n := by
        intro hmn
        exact hcomposite ((h.composite n).mpr (hmn ▸ hm))
      exact (Function.update_of_ne hmn _ _).trans (h.struck m hm)

/-- **One number of the outer loop.** -/
theorem sieveNumber_spec {limit n : Nat} (hn : 2 ≤ n) (hlimit : n ≤ limit) {s : MobiusSieve}
    (h : SievedBelow limit n s) : SievedBelow limit (n + 1) (sieveNumber limit s n) := by
  have hfound := findPrime_spec hn hlimit h
  have hmin := Nat.minFac_prime (show n ≠ 1 by omega)
  have hleast : n.minFac ∈ (findPrime s n).primes :=
    (hfound.primes _).mpr ⟨hmin, Nat.lt_succ_of_le (Nat.minFac_le (by omega))⟩
  obtain ⟨hprimes, hcomposite, hin, hout⟩ :=
    @strikeMultiples_spec limit n hn (findPrime s n).primes
      (fun p hp => ((hfound.primes p).mp hp).1) hfound.sorted hleast (findPrime s n)
      (hfound.through n (by omega) (by omega))
  -- every prime up to the least factor has been found
  have hstrikes : ∀ m, Strikes limit n (findPrime s n).primes m ↔
      m ≤ limit ∧ ∃ p, p.Prime ∧ p ≤ n.minFac ∧ m = n * p := by
    intro m
    constructor
    · intro hm
      obtain ⟨p, hp, hle, hmp, hml⟩ := hm
      exact ⟨hml, p, ((hfound.primes p).mp hp).1, hle, hmp⟩
    · intro hm
      obtain ⟨hml, p, hp, hle, hmp⟩ := hm
      have hpn : p ≤ n := hle.trans (Nat.minFac_le (by omega))
      exact ⟨p, (hfound.primes p).mpr ⟨hp, by omega⟩, hle, hmp, hml⟩
  have hrun : sieveNumber limit s n =
      strikeMultiples limit n (findPrime s n).primes (findPrime s n) := rfl
  have hvalue : ∀ m, (1 ≤ m ∧ m < n + 1) ∨ StruckBelow limit n m →
      (sieveNumber limit s n).mu m = ArithmeticFunction.moebius m := by
    intro m hm
    rw [hrun]
    by_cases hs : Strikes limit n (findPrime s n).primes m
    · exact hin m hs
    · rw [hout m hs]
      rcases hm with hm | hm
      · exact hfound.through m hm.1 hm.2
      · exact hfound.struck m hm
  refine ⟨?_, fun p => ?_, fun m => ?_, fun m hm hmn => hvalue m (.inl ⟨hm, hmn⟩), fun m hm => ?_⟩
  · rw [hrun, hprimes]
    exact hfound.sorted
  · rw [hrun, hprimes]
    exact hfound.primes p
  · rw [hrun, hcomposite m, hfound.composite m, hstrikes m, struckBelow_succ hn]
  · rcases (struckBelow_succ hn).mp hm with hm | hm
    · exact hvalue m (.inr hm)
    · rw [hrun]
      exact hin m ((hstrikes m).mpr hm)

theorem sievedBelow_start (limit : Nat) : SievedBelow limit 2
    { mu := Function.update (fun _ => 0) 1 1, composite := fun _ => false, primes := [] } := by
  have hnone : ∀ m, ¬ StruckBelow limit 2 m := by
    intro m h
    obtain ⟨_, k, _, hk, hk2, _⟩ := h
    omega
  refine ⟨List.Pairwise.nil, fun p => ?_, fun m => ?_, fun m hm hm2 => ?_,
    fun m h => absurd h (hnone m)⟩
  · constructor
    · intro hp
      cases hp
    · intro hp
      have := hp.1.two_le
      omega
  · constructor
    · intro hm
      cases hm
    · intro hm
      exact absurd hm (hnone m)
  · obtain rfl : m = 1 := by omega
    rw [ArithmeticFunction.moebius_apply_one]
    simp

/-- The loop over the numbers keeps the invariant at every frontier. -/
theorem sievedBelow_foldl {limit count n : Nat} (hn : 2 ≤ n) (hcount : n + count ≤ limit + 1)
    {s : MobiusSieve} (h : SievedBelow limit n s) :
    SievedBelow limit (n + count) ((List.range' n count).foldl (sieveNumber limit) s) := by
  induction count generalizing n s with
  | zero => exact h
  | succ count ih =>
      rw [List.range'_succ, List.foldl_cons]
      have hnext := sieveNumber_spec hn (by omega) h
      have := ih (by omega) (by omega) hnext
      rwa [show n + (count + 1) = n + 1 + count by omega]

/-- **`mobius_linear` computes the Möbius function.** -/
theorem mobiusLinear_eq {limit r : Nat} (hr : 1 ≤ r) (hlimit : r ≤ limit) :
    mobiusLinear limit r = ArithmeticFunction.moebius r :=
  (sievedBelow_foldl le_rfl (by omega) (sievedBelow_start limit)).below r hr (by omega)

end AttestedCompute.Arithmetic
