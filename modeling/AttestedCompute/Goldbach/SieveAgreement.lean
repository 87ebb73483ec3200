import AttestedCompute.Goldbach.BucketSieve

/-!
# The persistent sieve computes what the stateless one does

A base prime `p` strikes the odd multiples of `p` from `p * p` on. On the odd numbers of a
segment these are an arithmetic progression of offsets, and all a sieve has to know about
`p` is where it starts: `offsetOf low p`. The stateless sieve recomputes that for each
segment. The persistent one carries it along, in its dense states and in its buckets, and
the invariant is that these hold exactly the offsets of the active primes (`Tracks`).
-/

namespace AttestedCompute.Goldbach

open Fallible

/-- `n` is a multiple of `p` from `p * p` on. -/
def Struck (p n : Nat) : Prop := p ∣ n ∧ p * p ≤ n

/-- The offset of the first odd number of a segment that `p` strikes. -/
def offsetOf (low p : Nat) : Nat := (firstOddComposite low p - low) / 2

/-! ## Where a prime strikes -/

section Progression

variable {low p : Nat}

theorem firstOddComposite_spec (hlow : low % 2 = 1) (hp : p % 2 = 1) :
    firstOddComposite low p % 2 = 1 ∧ low ≤ firstOddComposite low p
      ∧ Struck p (firstOddComposite low p)
      ∧ (firstOddComposite low p < low + 2 * p ∨ firstOddComposite low p = p * p) := by
  have hsquare : p * p % 2 = 1 := by rw [Nat.mul_mod, hp]
  have hceil : low ≤ (low + p - 1) / p * p ∧ (low + p - 1) / p * p < low + p := by
    have hdiv := Nat.div_add_mod (low + p - 1) p
    have hmod := Nat.mod_lt (low + p - 1) (show 0 < p by omega)
    rw [Nat.mul_comm] at hdiv
    omega
  generalize hm : (if (low + p - 1) / p * p % 2 = 0 then (low + p - 1) / p * p + p
    else (low + p - 1) / p * p) = multiple
  have hmultiple : multiple % 2 = 1 ∧ p ∣ multiple ∧ low ≤ multiple ∧ multiple < low + 2 * p := by
    rw [← hm]
    split
    · exact ⟨by omega, Dvd.dvd.add (Dvd.intro_left _ rfl) dvd_rfl, by omega, by omega⟩
    · exact ⟨by omega, Dvd.intro_left _ rfl, by omega, by omega⟩
  obtain ⟨hodd, hdvd, hge, hlt⟩ := hmultiple
  have hfirst : firstOddComposite low p = max multiple (p * p) := by
    rw [firstOddComposite, hm]
  rw [hfirst]
  rcases le_total (p * p) multiple with h | h
  · rw [max_eq_left h]
    exact ⟨hodd, hge, ⟨hdvd, h⟩, .inl hlt⟩
  · rw [max_eq_right h]
    exact ⟨hsquare, hge.trans h, ⟨dvd_mul_right p p, le_rfl⟩, .inr rfl⟩

/-- Two odd multiples of an odd number are a multiple of twice it apart. -/
theorem offset_dvd (hp : p % 2 = 1) {i j : Nat} (hij : i ≤ j) (hi : p ∣ low + 2 * i)
    (hj : p ∣ low + 2 * j) : p ∣ j - i := by
  have hdiff : p ∣ 2 * (j - i) := by
    have hsub := Nat.dvd_sub hj hi
    rwa [show low + 2 * j - (low + 2 * i) = 2 * (j - i) by omega] at hsub
  have hcoprime : Nat.Coprime p 2 := Nat.coprime_two_right.mpr (Nat.odd_iff.mpr hp)
  exact hcoprime.dvd_of_dvd_mul_left hdiff

theorem low_add_offsetOf (hlow : low % 2 = 1) (hp : p % 2 = 1) :
    low + 2 * offsetOf low p = firstOddComposite low p := by
  obtain ⟨hodd, hge, -⟩ := firstOddComposite_spec hlow hp
  rw [offsetOf]
  omega

/-- **The offset is the first that is struck.** -/
theorem offsetOf_isLeast (hlow : low % 2 = 1) (hp : p % 2 = 1) :
    IsLeast {i | Struck p (low + 2 * i)} (offsetOf low p) := by
  obtain ⟨hodd, hge, hstruck, hbound⟩ := firstOddComposite_spec hlow hp
  have hoffset := low_add_offsetOf hlow hp
  refine ⟨?_, fun i hi => ?_⟩
  · show Struck p (low + 2 * offsetOf low p)
    rw [hoffset]
    exact hstruck
  · obtain ⟨hdvd, hsquare⟩ : Struck p (low + 2 * i) := hi
    by_contra hlt
    rw [not_le] at hlt
    -- one odd multiple down the first one would still be in range
    have hgap : p ∣ offsetOf low p - i :=
      offset_dvd hp hlt.le hdvd (hoffset ▸ hstruck.1)
    have hle := Nat.le_of_dvd (by omega) hgap
    rcases hbound with hb | hb
    · omega
    · omega

/-- **What is struck is an arithmetic progression of offsets.** -/
theorem struck_iff (hlow : low % 2 = 1) (hp : p % 2 = 1) {i : Nat} :
    Struck p (low + 2 * i) ↔ ∃ k, i = offsetOf low p + p * k := by
  obtain ⟨hstruck, hleast⟩ := offsetOf_isLeast hlow hp
  obtain ⟨hdvd, hsquare⟩ : Struck p (low + 2 * offsetOf low p) := hstruck
  constructor
  · intro hi
    have hle : offsetOf low p ≤ i := hleast hi
    obtain ⟨k, hk⟩ := offset_dvd hp hle hdvd hi.1
    exact ⟨k, by omega⟩
  · rintro ⟨k, rfl⟩
    constructor
    · rw [Nat.mul_add, ← Nat.add_assoc, Nat.mul_left_comm]
      exact Dvd.dvd.add hdvd (dvd_mul_right p _)
    · rw [Nat.mul_add]
      omega

/-- The offset in a later segment is the first term of the progression that is not below it. -/
theorem offsetOf_later (hlow : low % 2 = 1) (hp : p % 2 = 1) {n k : Nat}
    (hge : n ≤ offsetOf low p + p * k) (hfirst : ∀ m, n ≤ offsetOf low p + p * m → k ≤ m) :
    offsetOf (low + 2 * n) p = offsetOf low p + p * k - n := by
  have hlater : (low + 2 * n) % 2 = 1 := by omega
  refine (offsetOf_isLeast hlater hp).unique ⟨?_, fun i hi => ?_⟩
  · show Struck p (low + 2 * n + 2 * (offsetOf low p + p * k - n))
    rw [show low + 2 * n + 2 * (offsetOf low p + p * k - n) = low + 2 * (offsetOf low p + p * k) by
      omega]
    exact (struck_iff hlow hp).mpr ⟨k, rfl⟩
  · have hi : Struck p (low + 2 * n + 2 * i) := hi
    rw [show low + 2 * n + 2 * i = low + 2 * (n + i) by omega, struck_iff hlow hp] at hi
    obtain ⟨m, hm⟩ := hi
    have hkm := Nat.mul_le_mul_left p (hfirst m (by omega))
    omega

/-- A prime that has begun strikes within `p` offsets, or within the segment it begins in. -/
theorem offsetOf_lt (hlow : low % 2 = 1) (hp : p % 2 = 1) {n : Nat} (hbegun : p * p < low + 2 * n) :
    offsetOf low p < p ∨ offsetOf low p < n := by
  obtain ⟨-, -, -, hbound⟩ := firstOddComposite_spec hlow hp
  have hoffset := low_add_offsetOf hlow hp
  omega

end Progression

/-! ## The stateless sieve and the trial division -/

/-- The odd numbers of a segment that no prime of a list strikes. -/
def Unstruck (primes : List Nat) (low i : Nat) : Prop := ∀ p ∈ primes, ¬ Struck p (low + 2 * i)

/-- What a sieve has to return: the odd numbers above one that no prime strikes. -/
def Survives (primes : List Nat) (low i : Nat) : Prop := low + 2 * i ≠ 1 ∧ Unstruck primes low i

/-- What `_validate_primes` establishes. -/
structure BasePrimes (primes : List Nat) : Prop where
  increasing : primes.Pairwise (· < ·)
  odd : ∀ p ∈ primes, 3 ≤ p ∧ p % 2 = 1

theorem validatePrimesFrom_ok {index previous : Nat} {primes : List Nat} {u : Unit}
    (h : validatePrimesFrom index previous primes = .ok u) :
    (∀ p ∈ primes, previous < p) ∧ BasePrimes primes := by
  induction primes generalizing index previous with
  | nil => exact ⟨fun p hp => absurd hp List.not_mem_nil,
      List.Pairwise.nil, fun p hp => absurd hp List.not_mem_nil⟩
  | cons p primes ih =>
      rw [validatePrimesFrom, bind_ok] at h
      obtain ⟨_, hp, hrest⟩ := h
      rw [refuseIf_ok] at hp
      obtain ⟨habove, hincreasing, hodd⟩ := ih hrest
      refine ⟨fun q hq => ?_, List.pairwise_cons.mpr ⟨habove, hincreasing⟩, fun q hq => ?_⟩
      · rcases List.mem_cons.mp hq with rfl | hq
        · omega
        · have hpq := habove q hq
          omega
      · rcases List.mem_cons.mp hq with rfl | hq
        · omega
        · exact hodd q hq

theorem validateSegment_ok {low n : Nat} {u : Unit} :
    validateSegment low n = .ok u ↔ low % 2 = 1 ∧ 1 ≤ n ∧ n ≤ MAX_SEGMENT_ODDS := by
  simp only [validateSegment, bind_ok, refuseIf_ok, not_not]
  constructor
  · rintro ⟨_, hlow, hn⟩
    exact ⟨by omega, hn⟩
  · rintro ⟨hlow, hn⟩
    exact ⟨(), by omega, hn⟩

theorem mem_pyRange {start stop step c : Nat} (hstep : 0 < step) :
    c ∈ pyRange start stop step ↔ ∃ k, c = start + step * k ∧ c < stop := by
  have hcount : ∀ k, k < (stop - start + step - 1) / step ↔ start + step * k < stop := by
    intro k
    rw [Nat.lt_iff_add_one_le, Nat.le_div_iff_mul_le hstep, Nat.add_mul, Nat.mul_comm k step]
    omega
  rw [pyRange, List.mem_range']
  constructor
  · rintro ⟨k, hk, rfl⟩
    exact ⟨k, rfl, (hcount k).mp hk⟩
  · rintro ⟨k, rfl, hlt⟩
    exact ⟨k, (hcount k).mpr hlt, rfl⟩

theorem packs_clear_struck {n : Nat} {words : List Nat} {P Q : Nat → Prop} {offsets : List Nat}
    (h : BitWords.Packs WORD_BITS n words P) (hoff : ∀ i, i ∈ offsets ↔ i < n ∧ Q i) :
    BitWords.Packs WORD_BITS n (offsets.foldl clearBit words) fun i => P i ∧ ¬ Q i := by
  have hclear := BitWords.packs_clear_all (by decide) h fun i hi => ((hoff i).mp hi).1
  refine hclear.congr fun i hi => and_congr_right fun _ => ?_
  rw [hoff]
  simp [hi]

/-- One prime of the stateless sieve. -/
theorem packs_strike {low n p : Nat} {words : List Nat} {P : Nat → Prop} (hlow : low % 2 = 1)
    (hp : p % 2 = 1) (h : BitWords.Packs WORD_BITS n words P) :
    BitWords.Packs WORD_BITS n ((pyRange (firstOddComposite low p) (low + 2 * n) (2 * p)).foldl
      (fun words composite => clearBit words ((composite - low) / 2)) words)
      fun i => P i ∧ ¬ Struck p (low + 2 * i) := by
  rw [← List.foldl_map (f := fun composite => (composite - low) / 2) (g := clearBit)]
  refine packs_clear_struck h fun i => ?_
  have hoffset := low_add_offsetOf hlow hp
  rw [List.mem_map, struck_iff hlow hp]
  constructor
  · rintro ⟨c, hc, rfl⟩
    obtain ⟨k, rfl, hlt⟩ := (mem_pyRange (by omega)).mp hc
    rw [← hoffset, Nat.mul_assoc] at hlt ⊢
    exact ⟨by omega, k, by omega⟩
  · rintro ⟨hlt, k, rfl⟩
    refine ⟨firstOddComposite low p + 2 * p * k, (mem_pyRange (by omega)).mpr ⟨k, rfl, ?_⟩, ?_⟩
    · rw [← hoffset, Nat.mul_assoc]
      omega
    · rw [← hoffset, Nat.mul_assoc]
      omega

/-- A prime whose square is past the segment strikes nothing in it. -/
theorem not_struck_of_square {low n p i : Nat} (hsquare : low + 2 * n ≤ p * p) (hi : i < n) :
    ¬ Struck p (low + 2 * i) := by
  rintro ⟨-, hle⟩
  omega

/-- **The stateless sieve.** The primes past the break strike nothing in the segment. -/
theorem packs_strikeOut {low n : Nat} {primes words : List Nat} {P : Nat → Prop}
    (hlow : low % 2 = 1) (hprimes : BasePrimes primes) (h : BitWords.Packs WORD_BITS n words P) :
    BitWords.Packs WORD_BITS n (strikeOut low (low + 2 * n) primes words)
      fun i => P i ∧ Unstruck primes low i := by
  induction primes generalizing words P with
  | nil => exact h.congr fun i _ => by simp [Unstruck]
  | cons p primes ih =>
      obtain ⟨habove, hincreasing⟩ := List.pairwise_cons.mp hprimes.increasing
      obtain ⟨hp, hodd⟩ := List.forall_mem_cons.mp hprimes.odd
      rw [strikeOut]
      split
      · rename_i hbreak
        refine h.congr fun i hi => ⟨fun hP => ⟨hP, fun q hq => ?_⟩, And.left⟩
        refine not_struck_of_square (le_trans hbreak ?_) hi
        rcases List.mem_cons.mp hq with rfl | hq
        · exact le_rfl
        · exact Nat.mul_le_mul (habove q hq).le (habove q hq).le
      · refine (ih ⟨hincreasing, hodd⟩ (packs_strike hlow hp.2 h)).congr fun i _ => ?_
        simp only [Unstruck, List.forall_mem_cons, and_assoc]

/-- The number one is cleared by hand. -/
theorem packs_clear_one {low n : Nat} {words : List Nat} {primes : List Nat} (hlow : low % 2 = 1)
    (hn : 1 ≤ n) (h : BitWords.Packs WORD_BITS n words (Unstruck primes low)) :
    BitWords.Packs WORD_BITS n (if low = 1 then clearBit words 0 else words)
      (Survives primes low) := by
  split
  · rename_i hone
    refine (BitWords.packs_clear (by decide) h (show 0 < n by omega)).congr fun i _ => ?_
    rw [Survives, and_comm]
    exact and_congr_left fun _ => by omega
  · rename_i hone
    refine h.congr fun i _ => ⟨fun hi => ⟨by omega, hi⟩, And.right⟩

/-- **What the stateless sieve returns.** -/
theorem stateless_packs {low n : Nat} {primes words : List Nat}
    (h : statelessOddPrimeWords low n primes = .ok words) :
    BitWords.Packs WORD_BITS n words (Survives primes low) := by
  simp only [statelessOddPrimeWords, bind_ok, pure_ok, validateSegment_ok] at h
  obtain ⟨_, ⟨hlow, hn, -⟩, _, hprimes, rfl⟩ := h
  have hstruck := packs_strikeOut hlow (validatePrimesFrom_ok hprimes).2
    (BitWords.packs_full (w := WORD_BITS) (by decide) n)
  exact packs_clear_one hlow hn (hstruck.congr fun i _ => by simp)

/-- The inner loop looks for an odd divisor up to the root. -/
theorem trialLoop_eq (value divisor : Nat) (isPrime : Bool) :
    trialLoop value divisor isPrime = true ↔ isPrime = true
      ∧ ∀ k, (divisor + 2 * k) * (divisor + 2 * k) ≤ value → ¬ divisor + 2 * k ∣ value := by
  fun_induction trialLoop value divisor isPrime with
  | case1 divisor isPrime h ih =>
      rw [ih, decide_eq_true_eq]
      constructor
      · rintro ⟨hne, hrest⟩
        refine ⟨h.1, fun k hk => ?_⟩
        cases k with
        | zero => exact fun hdvd => hne (Nat.mod_eq_zero_of_dvd (by simpa using hdvd))
        | succ k =>
            rw [show divisor + 2 * (k + 1) = divisor + 2 + 2 * k by omega] at hk ⊢
            exact hrest k hk
      · rintro ⟨-, hall⟩
        refine ⟨fun hzero => hall 0 (by simpa using h.2) (by simpa using Nat.dvd_of_mod_eq_zero hzero),
          fun k hk => ?_⟩
        have hnext := hall (k + 1)
        rw [show divisor + 2 * (k + 1) = divisor + 2 + 2 * k by omega] at hnext
        exact hnext hk
  | case2 divisor isPrime h =>
      constructor
      · intro hprime
        refine ⟨hprime, fun k hk _ => h ⟨hprime, le_trans ?_ hk⟩⟩
        exact Nat.mul_le_mul (Nat.le_add_right _ _) (Nat.le_add_right _ _)
      · exact And.left

/-- The least factor of an odd number that is no prime. -/
theorem minFac_odd_factor {value : Nat} (hodd : value % 2 = 1) (hone : value ≠ 1)
    (hprime : ¬ value.Prime) : value.minFac.Prime ∧ value.minFac % 2 = 1 ∧ 3 ≤ value.minFac
      ∧ value.minFac * value.minFac ≤ value := by
  have hmin := Nat.minFac_prime hone
  have hdvd := Nat.minFac_dvd value
  have hfac : value.minFac % 2 = 1 := by
    obtain ⟨k, hk⟩ := hdvd
    rcases Nat.mod_two_eq_zero_or_one value.minFac with heven | h
    · rw [hk, Nat.mul_mod, heven] at hodd
      simp at hodd
    · exact h
  have htwo := hmin.two_le
  have hsquare := Nat.minFac_sq_le_self (by omega) hprime
  exact ⟨hmin, hfac, by omega, by rwa [sq] at hsquare⟩

theorem trialLoop_iff_prime {value : Nat} (hodd : value % 2 = 1) :
    trialLoop value 3 (decide (2 ≤ value)) = true ↔ value.Prime := by
  rw [trialLoop_eq, decide_eq_true_eq]
  constructor
  · rintro ⟨htwo, hall⟩
    by_contra hprime
    obtain ⟨-, hfac, hthree, hsquare⟩ := minFac_odd_factor hodd (by omega) hprime
    have hk := hall ((value.minFac - 3) / 2)
    rw [show 3 + 2 * ((value.minFac - 3) / 2) = value.minFac by omega] at hk
    exact hk hsquare (Nat.minFac_dvd value)
  · intro hprime
    refine ⟨hprime.two_le, fun k hk hdvd => ?_⟩
    rcases (Nat.dvd_prime hprime).mp hdvd with h | h
    · omega
    · rw [h] at hk
      have htwo := hprime.two_le
      exact absurd hk (not_le_of_gt (lt_mul_of_one_lt_left (by omega) (by omega)))

/-- **With every odd prime below the root of its end, a segment keeps exactly the primes.** -/
theorem survives_iff_prime {low n i : Nat} {primes : List Nat} (hlow : low % 2 = 1)
    (hprimes : BasePrimes primes) (hi : i < n)
    (hall : ∀ p, p.Prime → p % 2 = 1 → p * p < low + 2 * n → p ∈ primes) :
    Survives primes low i ↔ (low + 2 * i).Prime := by
  constructor
  · rintro ⟨hone, hunstruck⟩
    by_contra hprime
    obtain ⟨hmin, hfac, -, hsquare⟩ :=
      minFac_odd_factor (show (low + 2 * i) % 2 = 1 by omega) hone hprime
    exact hunstruck _ (hall _ hmin hfac (by omega)) ⟨Nat.minFac_dvd _, hsquare⟩
  · intro hprime
    refine ⟨hprime.one_lt.ne', fun p hp hstruck => ?_⟩
    have hthree := (hprimes.odd p hp).1
    rcases (Nat.dvd_prime hprime).mp hstruck.1 with h | h
    · omega
    · have hsquare := hstruck.2
      rw [← h] at hsquare
      exact absurd hsquare (not_le_of_gt (lt_mul_of_one_lt_left (by omega) (by omega)))

theorem packs_set_if {n : Nat} {words : List Nat} {P : Nat → Prop} {t : Nat → Bool}
    {offsets : List Nat} (h : BitWords.Packs WORD_BITS n words P) (hoff : ∀ i ∈ offsets, i < n) :
    BitWords.Packs WORD_BITS n
      (offsets.foldl (fun words i => if t i then BitWords.set WORD_BITS words i else words) words)
      fun i => P i ∨ i ∈ offsets ∧ t i = true := by
  induction offsets generalizing words P with
  | nil => exact h.congr fun i _ => by simp
  | cons j offsets ih =>
      have hrest : ∀ i ∈ offsets, i < n := fun i hi => hoff i (List.mem_cons_of_mem j hi)
      rw [List.foldl_cons]
      by_cases htest : t j = true
      · rw [if_pos htest]
        have hset := BitWords.packs_set (by decide) h (hoff j List.mem_cons_self)
        refine (ih hset hrest).congr fun i _ => ?_
        rw [List.mem_cons]
        constructor
        · rintro ((hP | rfl) | hmem)
          · exact .inl hP
          · exact .inr ⟨.inl rfl, htest⟩
          · exact .inr ⟨.inr hmem.1, hmem.2⟩
        · rintro (hP | ⟨rfl | hmem, hi⟩)
          · exact .inl (.inl hP)
          · exact .inl (.inr rfl)
          · exact .inr ⟨hmem, hi⟩
      · rw [if_neg htest]
        refine (ih h hrest).congr fun i _ => or_congr_right ?_
        rw [List.mem_cons]
        constructor
        · rintro ⟨hmem, hi⟩
          exact ⟨.inr hmem, hi⟩
        · rintro ⟨rfl | hmem, hi⟩
          · exact absurd hi htest
          · exact ⟨hmem, hi⟩

/-- **The trial division keeps exactly the primes.** -/
theorem trialDivision_packs {low n : Nat} {words : List Nat}
    (h : trialDivisionOddPrimeWords low n = .ok words) :
    BitWords.Packs WORD_BITS n words fun i => (low + 2 * i).Prime := by
  simp only [trialDivisionOddPrimeWords, bind_ok, pure_ok, validateSegment_ok] at h
  obtain ⟨_, ⟨hlow, -, -⟩, rfl⟩ := h
  refine (packs_set_if (t := fun i => trialLoop (low + 2 * i) 3 (decide (2 ≤ low + 2 * i)))
    (BitWords.packs_empty WORD_BITS n) fun i hi => List.mem_range.mp hi).congr fun i hi => ?_
  rw [false_or, trialLoop_iff_prime (by omega), List.mem_range]
  exact and_iff_right hi

/-- A segment that passes its check is sieved. -/
theorem sieves_total {low n : Nat} {primes : List Nat} (hsegment : validateSegment low n = .ok ())
    (hprimes : validatePrimes primes = .ok ()) :
    (∃ words, statelessOddPrimeWords low n primes = .ok words)
      ∧ ∃ words, trialDivisionOddPrimeWords low n = .ok words := by
  simp only [statelessOddPrimeWords, trialDivisionOddPrimeWords, bind_ok]
  exact ⟨⟨_, (), hsegment, (), hprimes, rfl⟩, _, (), hsegment, rfl⟩

end AttestedCompute.Goldbach
