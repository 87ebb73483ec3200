import AttestedCompute.Arithmetic.MobiusLinear
import AttestedCompute.Lib.Fallible

/-!
# The segmented Möbius sieve

`_primes_through` and `mobius_segment` of `tg_verifier/arithmetic.py`, next to
`mobius_linear`. The segmented sieve visits the base primes one after another and
splits every number of the interval into the part built from the primes already
visited, whose Möbius value it keeps, and a remaining cofactor. After the base
primes the cofactor is 1 or a single large prime.

Arrays are functions of the index, and an entry of the segment holds both arrays
of the source at its offset.
-/

namespace AttestedCompute.Arithmetic

open Fallible (refuseIf bind_ok pure_ok refuseIf_ok)
open ArithmeticFunction (moebius)

/-- The failures of the two sieves on integers. -/
inductive SieveError where
  | belowMinimum (name : String) (minimum : Int)
  | stopBelowStart
  deriving DecidableEq, Repr

def SieveError.message : SieveError → String
  | belowMinimum name minimum => name ++ " must be at least " ++ toString minimum
  | stopBelowStart => "stop must not be less than start"

/-- `_require_int` with a lower bound. -/
def requireAtLeast (name : String) (value minimum : Int) : Except SieveError Unit :=
  refuseIf (value < minimum) (.belowMinimum name minimum)

/-- `composite[start : limit + 1 : prime] = b"\x01" * count` -/
def strikeFromSquare (limit prime : Nat) (composite : Nat → Bool) : Nat → Bool :=
  let start := prime * prime
  (List.range ((limit - start) / prime + 1)).foldl
    (fun composite k => Function.update composite (start + k * prime) true) composite

/-- One candidate of the Eratosthenes sieve. -/
def sieveCandidate (limit : Nat) (composite : Nat → Bool) (prime : Nat) : Nat → Bool :=
  if composite prime then composite else strikeFromSquare limit prime composite

/-- `_primes_through` -/
def primesThrough (limit : Nat) : List Nat :=
  if limit < 2 then []
  else
    let composite := (List.range' 2 (Nat.sqrt limit - 1)).foldl (sieveCandidate limit)
      fun _ => false
    (List.range' 2 (limit - 1)).filter fun number => !composite number

/-- `remaining[offset]` and `values[offset]` -/
structure SegmentEntry where
  remaining : Nat
  value : Int

/-- `while remaining[offset] % prime == 0: remaining[offset] //= prime` -/
def divideOut (prime : Nat) : Nat → Nat → Nat
  | 0, remaining => remaining
  | fuel + 1, remaining =>
      if remaining % prime = 0 then divideOut prime fuel (remaining / prime) else remaining

/-- Remove one prime from an entry it divides. -/
def SegmentEntry.strike (prime : Nat) (entry : SegmentEntry) : SegmentEntry :=
  let remaining := entry.remaining / prime
  let value := if entry.value ≠ 0 then -entry.value else entry.value
  if remaining % prime = 0 then
    { remaining := divideOut prime remaining remaining, value := 0 }
  else { remaining := remaining, value := value }

/-- `range(first, stop, prime)` -/
def multiplesIn (start stop prime : Nat) : List Nat :=
  let first := (start + prime - 1) / prime * prime
  List.range' first ((stop - first + prime - 1) / prime) prime

/-- One base prime of the segmented sieve. -/
def strikeSegment (start stop : Nat) (entries : Nat → SegmentEntry) (prime : Nat) :
    Nat → SegmentEntry :=
  (multiplesIn start stop prime).foldl
    (fun entries number =>
      let offset := number - start
      Function.update entries offset ((entries offset).strike prime)) entries

/-- A residual greater than one is one additional prime factor. -/
def SegmentEntry.finish (entry : SegmentEntry) : Int :=
  if 1 < entry.remaining ∧ entry.value ≠ 0 then -entry.value else entry.value

/-- The segment of natural numbers `[start, stop)`. -/
def segmentValues (start stop : Nat) : List Int :=
  let entries := (primesThrough (Nat.sqrt (stop - 1))).foldl (strikeSegment start stop)
    fun offset => { remaining := start + offset, value := 1 }
  (List.range (stop - start)).map fun offset => (entries offset).finish

/-- `mobius_segment` -/
def mobiusSegment (start stop : Int) : Except SieveError (List Int) := do
  requireAtLeast "start" start 1
  requireAtLeast "stop" stop 1
  refuseIf (stop < start) .stopBelowStart
  pure (if stop = start then [] else segmentValues start.toNat stop.toNat)

/-- `mobius_linear` with its check of the limit and the list it returns. -/
def mobiusLinearValues (limit : Int) : Except SieveError (List Int) := do
  requireAtLeast "limit" limit 0
  pure (if limit = 0 then [0]
    else (List.range (limit.toNat + 1)).map (mobiusLinear limit.toNat))

/-! ## Arrays written at a list of indices -/

theorem foldl_update_true {f : Nat → Nat} {ks : List Nat} {composite : Nat → Bool} {m : Nat} :
    ks.foldl (fun c k => Function.update c (f k) true) composite m = true
      ↔ composite m = true ∨ ∃ k ∈ ks, m = f k := by
  induction ks generalizing composite with
  | nil => simp
  | cons k ks ih =>
      rw [List.foldl_cons, ih]
      by_cases hm : m = f k
      · simp [hm]
      · simp [hm]

/-- Distinct entries are each rewritten once. -/
theorem foldl_update_apply {α β : Type} {g : α → α} {index : β → Nat} {is : List β}
    (hnodup : (is.map index).Nodup) (entries : Nat → α) (j : Nat) :
    is.foldl (fun e i => Function.update e (index i) (g (e (index i)))) entries j
      = if j ∈ is.map index then g (entries j) else entries j := by
  induction is generalizing entries with
  | nil => simp
  | cons i is ih =>
      rw [List.map_cons, List.nodup_cons] at hnodup
      rw [List.foldl_cons, ih hnodup.2]
      by_cases hj : j = index i
      · subst hj
        simp [hnodup.1]
      · simp [hj]

/-! ## The base primes -/

/-- The multiples of the primes below the frontier, from the square of each. -/
def StruckBySquare (limit frontier m : Nat) : Prop :=
  m ≤ limit ∧ ∃ q, q.Prime ∧ q < frontier ∧ q * q ≤ m ∧ q ∣ m

theorem strikeFromSquare_iff {limit prime : Nat} (hprime : 0 < prime)
    (hsquare : prime * prime ≤ limit) {composite : Nat → Bool} {m : Nat} :
    strikeFromSquare limit prime composite m = true
      ↔ composite m = true ∨ (m ≤ limit ∧ prime * prime ≤ m ∧ prime ∣ m) := by
  unfold strikeFromSquare
  rw [foldl_update_true]
  refine or_congr_right ?_
  constructor
  · rintro ⟨k, hk, rfl⟩
    have hk : k ≤ (limit - prime * prime) / prime := Nat.lt_succ_iff.mp (List.mem_range.mp hk)
    have hkp := (Nat.le_div_iff_mul_le hprime).mp hk
    exact ⟨by omega, Nat.le_add_right _ _,
      (Nat.dvd_mul_right prime prime).add (Nat.dvd_mul_left prime k)⟩
  · rintro ⟨hlimit, hm, c, rfl⟩
    have hc : prime ≤ c := Nat.le_of_mul_le_mul_left hm hprime
    have hsum : prime * c = prime * prime + (c - prime) * prime := by
      rw [mul_comm (c - prime), ← mul_add, Nat.add_sub_of_le hc]
    refine ⟨c - prime, List.mem_range.mpr (Nat.lt_succ_iff.mpr ?_), hsum⟩
    exact (Nat.le_div_iff_mul_le hprime).mpr (by omega)

/-- At its own turn a candidate is unmarked exactly when it is prime. -/
theorem struckBySquare_self {limit n : Nat} (hn : 2 ≤ n) (hlimit : n ≤ limit) :
    StruckBySquare limit n n ↔ ¬ n.Prime := by
  constructor
  · rintro ⟨-, q, hq, hlt, -, hdvd⟩ hprime
    exact hlt.ne ((Nat.prime_dvd_prime_iff_eq hq hprime).mp hdvd)
  · intro hprime
    have hmin := Nat.minFac_prime (show n ≠ 1 by omega)
    have hsquare := Nat.minFac_sq_le_self (by omega) hprime
    rw [pow_two] at hsquare
    exact ⟨hlimit, n.minFac, hmin, (Nat.not_prime_iff_minFac_lt hn).mp hprime, hsquare,
      Nat.minFac_dvd n⟩

theorem struckBySquare_succ {limit n m : Nat} :
    StruckBySquare limit (n + 1) m
      ↔ StruckBySquare limit n m ∨ (n.Prime ∧ m ≤ limit ∧ n * n ≤ m ∧ n ∣ m) := by
  constructor
  · rintro ⟨hm, q, hq, hlt, hrest⟩
    by_cases hqn : q = n
    · exact .inr ⟨hqn ▸ hq, hm, hqn ▸ hrest⟩
    · exact .inl ⟨hm, q, hq, by omega, hrest⟩
  · intro h
    rcases h with ⟨hm, q, hq, hlt, hrest⟩ | ⟨hn, hm, hrest⟩
    · exact ⟨hm, q, hq, by omega, hrest⟩
    · exact ⟨hm, n, hn, by omega, hrest⟩

/-- **One candidate moves the frontier by one.** -/
theorem sieveCandidate_spec {limit n : Nat} (hn : 2 ≤ n) (hsquare : n * n ≤ limit)
    {composite : Nat → Bool} (h : ∀ m, composite m = true ↔ StruckBySquare limit n m) (m : Nat) :
    sieveCandidate limit composite n m = true ↔ StruckBySquare limit (n + 1) m := by
  have hlimit : n ≤ limit := (Nat.le_mul_self n).trans hsquare
  have hself := (h n).trans (struckBySquare_self hn hlimit)
  rw [struckBySquare_succ]
  unfold sieveCandidate
  split
  · rename_i hcomposite
    have hprime := hself.mp hcomposite
    simp [h m, hprime]
  · rename_i hcomposite
    have hprime : n.Prime := by
      by_contra hprime
      exact hcomposite (hself.mpr hprime)
    rw [strikeFromSquare_iff (by omega) hsquare, h m]
    simp [hprime]

theorem sieveCandidate_foldl {limit count n : Nat} (hn : 2 ≤ n)
    (hcount : ∀ k, k < n + count → k * k ≤ limit) {composite : Nat → Bool}
    (h : ∀ m, composite m = true ↔ StruckBySquare limit n m) (m : Nat) :
    (List.range' n count).foldl (sieveCandidate limit) composite m = true
      ↔ StruckBySquare limit (n + count) m := by
  induction count generalizing n composite with
  | zero => exact h m
  | succ count ih =>
      rw [List.range'_succ, List.foldl_cons]
      have hnext := sieveCandidate_spec hn (hcount n (by omega)) h
      have := ih (by omega) (fun k hk => hcount k (by omega)) hnext
      rwa [show n + (count + 1) = n + 1 + count by omega]

/-- **The primes through a limit.** -/
theorem mem_primesThrough {limit p : Nat} : p ∈ primesThrough limit ↔ p.Prime ∧ p ≤ limit := by
  unfold primesThrough
  split
  · rename_i hlimit
    constructor
    · intro h
      cases h
    · rintro ⟨hp, hle⟩
      have := hp.two_le
      omega
  rename_i hlimit
  have hsqrt : 1 ≤ Nat.sqrt limit := Nat.le_sqrt.mpr (by omega)
  have hstruck := @sieveCandidate_foldl limit (Nat.sqrt limit - 1) 2 le_rfl
    (fun k hk => Nat.le_sqrt.mp (by omega)) (fun _ => false) fun m => by
      constructor
      · intro h
        cases h
      · rintro ⟨-, q, hq, hlt, -⟩
        have := hq.two_le
        omega
  have hnot : ∀ c : Bool, (!c) = true ↔ ¬ c = true := by simp
  rw [List.mem_filter, hnot, hstruck p, List.mem_range'_1]
  constructor
  · rintro ⟨hrange, hp⟩
    refine ⟨?_, by omega⟩
    by_contra hprime
    -- the least factor of a composite number is within the square root of the limit
    have hmin := Nat.minFac_sq_le_self (by omega) hprime
    rw [pow_two] at hmin
    have hroot : p.minFac ≤ Nat.sqrt limit := Nat.le_sqrt.mpr (by omega)
    exact hp ⟨by omega, p.minFac, Nat.minFac_prime (by omega), by omega, hmin, Nat.minFac_dvd p⟩
  · rintro ⟨hp, hle⟩
    have h2 := hp.two_le
    refine ⟨by omega, ?_⟩
    rintro ⟨-, q, hq, -, hsquare, hdvd⟩
    rw [(Nat.prime_dvd_prime_iff_eq hq hp).mp hdvd] at hsquare
    have := Nat.mul_le_mul_left p h2
    omega

theorem nodup_primesThrough (limit : Nat) : (primesThrough limit).Nodup := by
  unfold primesThrough
  split
  · exact List.nodup_nil
  · exact (List.nodup_range').filter _

/-! ## One entry of the segment -/

theorem divideOut_spec {prime : Nat} (hprime : 2 ≤ prime) :
    ∀ {fuel remaining : Nat}, 0 < remaining → remaining ≤ fuel →
      (∃ k, remaining = prime ^ k * divideOut prime fuel remaining)
        ∧ ¬ prime ∣ divideOut prime fuel remaining
  | 0, remaining, hpos, hfuel => by omega
  | fuel + 1, remaining, hpos, hfuel => by
      unfold divideOut
      split
      · rename_i hmod
        obtain ⟨c, rfl⟩ := Nat.dvd_of_mod_eq_zero hmod
        have hc : 0 < c := Nat.pos_of_mul_pos_left hpos
        have hlt := Nat.mul_le_mul_right c hprime
        rw [Nat.mul_div_cancel_left c (by omega)]
        obtain ⟨⟨k, hk⟩, hnot⟩ := @divideOut_spec prime hprime fuel c hc (by omega)
        refine ⟨⟨k + 1, ?_⟩, hnot⟩
        rw [pow_succ', mul_assoc, ← hk]
      · rename_i hmod
        exact ⟨⟨0, by rw [pow_zero, one_mul]⟩, fun h => hmod (Nat.mod_eq_zero_of_dvd h)⟩

/-- An entry of `n` once the primes of `visited` have been divided out. -/
structure EntryOf (n : Nat) (visited : List Nat) (entry : SegmentEntry) : Prop where
  split : ∃ d, n = d * entry.remaining ∧ Nat.Coprime d entry.remaining
    ∧ entry.value = moebius d ∧ ∀ q, q.Prime → q ∣ d → q ∈ visited
  stripped : ∀ q ∈ visited, ¬ q ∣ entry.remaining

theorem entryOf_start (n : Nat) : EntryOf n [] { remaining := n, value := 1 } := by
  refine ⟨⟨1, (one_mul n).symm, Nat.coprime_one_left n, ?_, ?_⟩, ?_⟩
  · rw [ArithmeticFunction.moebius_apply_one]
  · intro q hq hdvd
    exact absurd (Nat.dvd_one.mp hdvd) hq.one_lt.ne'
  · intro q hq
    cases hq

/-- A prime that does not divide the number leaves its entry alone. -/
theorem entryOf_skip {n p : Nat} {visited : List Nat} {entry : SegmentEntry}
    (hp : ¬ p ∣ n) (h : EntryOf n visited entry) : EntryOf n (p :: visited) entry := by
  obtain ⟨⟨d, hn, hcop, hvalue, hd⟩, hstripped⟩ := h
  refine ⟨⟨d, hn, hcop, hvalue, fun q hq hdvd => List.mem_cons_of_mem p (hd q hq hdvd)⟩, ?_⟩
  intro q hq hdvd
  rcases List.mem_cons.mp hq with rfl | hq
  · exact hp (hn ▸ hdvd.mul_left d)
  · exact hstripped q hq hdvd

/-- The part of the number that a power of the prime joins. -/
theorem entryOf_join {n p k d r : Nat} {visited : List Nat} (hp : p.Prime)
    (hn : n = d * p ^ k * r) (hdr : Nat.Coprime d r) (hpr : ¬ p ∣ r) {value : Int}
    (hvalue : value = moebius (d * p ^ k)) (hd : ∀ q, q.Prime → q ∣ d → q ∈ visited)
    (hstripped : ∀ q ∈ visited, ¬ q ∣ r) :
    EntryOf n (p :: visited) { remaining := r, value := value } := by
  have hcop : Nat.Coprime (d * p ^ k) r :=
    hdr.mul_left (((hp.coprime_iff_not_dvd).mpr hpr).pow_left k)
  refine ⟨⟨d * p ^ k, hn, hcop, hvalue, ?_⟩, ?_⟩
  · intro q hq hdvd
    rcases hq.dvd_mul.mp hdvd with h | h
    · exact List.mem_cons_of_mem p (hd q hq h)
    · rw [(Nat.prime_dvd_prime_iff_eq hq hp).mp (hq.dvd_of_dvd_pow h)]
      exact List.mem_cons_self
  · intro q hq
    rcases List.mem_cons.mp hq with rfl | hq
    · exact hpr
    · exact hstripped q hq

/-- **A new prime that divides the number moves from the cofactor to the value.** -/
theorem entryOf_strike {n p : Nat} {visited : List Nat} {entry : SegmentEntry} (hpos : 0 < n)
    (hp : p.Prime) (hnew : p ∉ visited) (hdvd : p ∣ n) (h : EntryOf n visited entry) :
    EntryOf n (p :: visited) (entry.strike p) := by
  obtain ⟨⟨d, hn, hcop, hvalue, hd⟩, hstripped⟩ := h
  have hpd : ¬ p ∣ d := fun h => hnew (hd p hp h)
  have hpr : p ∣ entry.remaining := by
    rw [hn] at hdvd
    exact (hp.dvd_mul.mp hdvd).resolve_left hpd
  obtain ⟨r, hr⟩ := hpr
  have hquot : entry.remaining / p = r := by rw [hr, Nat.mul_div_cancel_left r hp.pos]
  have hrpos : 0 < r := by
    refine Nat.pos_of_ne_zero fun h0 => ?_
    rw [hr, h0, mul_zero, mul_zero] at hn
    omega
  have hdr : ∀ {m : Nat}, m ∣ r → Nat.Coprime d m := fun hm =>
    hcop.coprime_dvd_right (hm.trans ⟨p, by rw [hr, mul_comm]⟩)
  have hstrip : ∀ {m : Nat}, m ∣ r → ∀ q ∈ visited, ¬ q ∣ m := fun hm q hq hqm =>
    hstripped q hq ((hqm.trans hm).trans ⟨p, by rw [hr, mul_comm]⟩)
  unfold SegmentEntry.strike
  simp only [hquot]
  split
  · -- a second copy: the value is 0 from here on
    rename_i hmod
    obtain ⟨⟨k, hk⟩, hnot⟩ := @divideOut_spec p hp.two_le r r hrpos le_rfl
    have hk0 : k ≠ 0 := by
      rintro rfl
      rw [pow_zero, one_mul] at hk
      exact hnot (hk ▸ Nat.dvd_of_mod_eq_zero hmod)
    have hdvdr : divideOut p r r ∣ r := ⟨p ^ k, by rw [mul_comm]; exact hk⟩
    refine entryOf_join (k := k + 1) hp ?_ (hdr hdvdr) hnot ?_ hd (hstrip hdvdr)
    · rw [hn, hr, pow_succ', mul_assoc, mul_assoc, ← hk]
    · symm
      refine ArithmeticFunction.moebius_eq_zero_of_not_squarefree fun hsquarefree => ?_
      have hsquare : p * p ∣ d * p ^ (k + 1) :=
        Dvd.dvd.mul_left (pow_two p ▸ pow_dvd_pow p (by omega)) d
      exact hp.one_lt.ne' (Nat.isUnit_iff.mp (hsquarefree p hsquare))
  · rename_i hmod
    have hnot : ¬ p ∣ r := fun h => hmod (Nat.mod_eq_zero_of_dvd h)
    refine entryOf_join (k := 1) hp ?_ (hdr dvd_rfl) hnot ?_ hd (hstrip dvd_rfl)
    · rw [hn, hr, pow_one, mul_assoc]
    · rw [pow_one, moebius_mul_prime hp, if_neg hpd, ← hvalue]
      split
      · rfl
      · rename_i h0
        rw [not_not.mp h0, neg_zero]

/-- **The residual.** Without factors up to the square root it is 1 or a prime. -/
theorem entryOf_finish {n root : Nat} {visited : List Nat} {entry : SegmentEntry} (hpos : 0 < n)
    (hroot : n < (root + 1) * (root + 1)) (hvisited : ∀ q, q.Prime → q ≤ root → q ∈ visited)
    (h : EntryOf n visited entry) : entry.finish = moebius n := by
  obtain ⟨⟨d, hn, hcop, hvalue, -⟩, hstripped⟩ := h
  have hmul : moebius n = moebius d * moebius entry.remaining := by
    rw [hn]
    exact ArithmeticFunction.isMultiplicative_moebius.map_mul_of_coprime hcop
  have hrpos : 0 < entry.remaining := by
    refine Nat.pos_of_ne_zero fun h0 => ?_
    rw [h0, mul_zero] at hn
    omega
  rw [hmul, ← hvalue]
  unfold SegmentEntry.finish
  by_cases hone : entry.remaining = 1
  · rw [if_neg (by omega), hone, ArithmeticFunction.moebius_apply_one, mul_one]
  have hprime : entry.remaining.Prime := by
    by_contra hprime
    have hmin := Nat.minFac_prime hone
    have hsquare := Nat.minFac_sq_le_self hrpos hprime
    have hle : entry.remaining ≤ n := Nat.le_of_dvd hpos ⟨d, by rw [mul_comm]; exact hn⟩
    rw [pow_two] at hsquare
    have hsmall : entry.remaining.minFac ≤ root := by
      by_contra hbig
      have hbig : root + 1 ≤ entry.remaining.minFac := Nat.not_le.mp hbig
      have := Nat.mul_le_mul hbig hbig
      omega
    exact hstripped _ (hvisited _ hmin hsmall) (Nat.minFac_dvd _)
  rw [ArithmeticFunction.moebius_apply_prime hprime, mul_neg_one]
  split
  · rfl
  · rename_i h0
    have hzero : entry.value = 0 := by
      by_contra hne
      exact h0 ⟨by omega, hne⟩
    rw [hzero, neg_zero]

/-! ## The whole segment -/

theorem mem_multiplesIn {start stop prime number : Nat} (hprime : 0 < prime) :
    number ∈ multiplesIn start stop prime
      ↔ start ≤ number ∧ number < stop ∧ prime ∣ number := by
  unfold multiplesIn
  generalize hfirst : (start + prime - 1) / prime * prime = first
  have hdvd : prime ∣ first := ⟨_, by rw [← hfirst, mul_comm]⟩
  -- `first` is the least multiple from `start` on
  have hlo : start ≤ first := by
    have := Nat.div_add_mod (start + prime - 1) prime
    have := Nat.mod_lt (start + prime - 1) hprime
    rw [mul_comm] at hfirst
    omega
  have hhi : first < start + prime := by
    have := Nat.div_mul_le_self (start + prime - 1) prime
    omega
  simp only [List.mem_range']
  constructor
  · rintro ⟨i, hi, rfl⟩
    have hi' : (i + 1) * prime ≤ stop - first + prime - 1 :=
      (Nat.le_div_iff_mul_le hprime).mp hi
    rw [Nat.add_mul, one_mul, mul_comm] at hi'
    exact ⟨by omega, by omega, (Nat.dvd_add hdvd (Nat.dvd_mul_right prime i))⟩
  · rintro ⟨hstart, hstop, hnumber⟩
    have hle : first ≤ number := by
      by_contra hlt
      obtain ⟨a, rfl⟩ := hdvd
      obtain ⟨b, rfl⟩ := hnumber
      have hab : b + 1 ≤ a := Nat.lt_of_mul_lt_mul_left (Nat.not_le.mp hlt)
      have := Nat.mul_le_mul_left prime hab
      rw [Nat.mul_add, mul_one] at this
      omega
    obtain ⟨i, hi⟩ := (Nat.dvd_sub hnumber hdvd)
    have hcount : (i + 1) * prime ≤ stop - first + prime - 1 := by
      rw [Nat.add_mul, one_mul, mul_comm]
      omega
    exact ⟨i, (Nat.le_div_iff_mul_le hprime).mpr hcount, by omega⟩

theorem strikeSegment_apply {start stop prime : Nat} (hprime : 0 < prime)
    (entries : Nat → SegmentEntry) {offset : Nat} (hoffset : start + offset < stop) :
    strikeSegment start stop entries prime offset
      = if prime ∣ start + offset then (entries offset).strike prime else entries offset := by
  have hnodup : ((multiplesIn start stop prime).map (· - start)).Nodup := by
    refine List.Nodup.map_on ?_ (@List.nodup_range' _ _ prime hprime)
    intro a ha b hb hab
    have := (mem_multiplesIn hprime).mp ha
    have := (mem_multiplesIn hprime).mp hb
    omega
  have hmem : offset ∈ (multiplesIn start stop prime).map (· - start) ↔ prime ∣ start + offset := by
    rw [List.mem_map]
    constructor
    · rintro ⟨number, hnumber, rfl⟩
      obtain ⟨hstart, -, hdvd⟩ := (mem_multiplesIn hprime).mp hnumber
      rwa [Nat.add_sub_of_le hstart]
    · intro hdvd
      exact ⟨start + offset, (mem_multiplesIn hprime).mpr ⟨by omega, hoffset, hdvd⟩, by omega⟩
  unfold strikeSegment
  rw [foldl_update_apply hnodup]
  simp only [hmem]

/-- **What a run over distinct primes leaves in every entry.** -/
theorem strikeSegment_foldl {start stop : Nat} (hstart : 0 < start) {primes visited : List Nat}
    (hprime : ∀ p ∈ primes, p.Prime) (hnodup : primes.Nodup)
    (hnew : ∀ p ∈ primes, p ∉ visited) {entries : Nat → SegmentEntry}
    (h : ∀ offset, start + offset < stop → EntryOf (start + offset) visited (entries offset))
    {offset : Nat} (hoffset : start + offset < stop) :
    EntryOf (start + offset) (primes.reverse ++ visited)
      (primes.foldl (strikeSegment start stop) entries offset) := by
  induction primes generalizing visited entries with
  | nil => exact h offset hoffset
  | cons p primes ih =>
      have hp := hprime p List.mem_cons_self
      obtain ⟨hfresh, hrest⟩ := List.nodup_cons.mp hnodup
      rw [List.foldl_cons, List.reverse_cons, List.append_assoc, List.singleton_append]
      refine ih (fun q hq => hprime q (List.mem_cons_of_mem p hq)) hrest ?_ ?_
      · intro q hq hmem
        rcases List.mem_cons.mp hmem with rfl | hmem
        · exact hfresh hq
        · exact hnew q (List.mem_cons_of_mem p hq) hmem
      · intro offset hoffset
        rw [strikeSegment_apply hp.pos entries hoffset]
        split
        · rename_i hdvd
          exact entryOf_strike (by omega) hp (hnew p List.mem_cons_self) hdvd (h offset hoffset)
        · rename_i hdvd
          exact entryOf_skip hdvd (h offset hoffset)

/-- **The segment holds the Möbius function.** -/
theorem segmentValues_eq {start stop : Nat} (hstart : 0 < start) :
    segmentValues start stop
      = (List.range (stop - start)).map fun offset => moebius (start + offset) := by
  unfold segmentValues
  refine List.map_congr_left fun offset hoffset => ?_
  have hoffset := List.mem_range.mp hoffset
  have hentry := @strikeSegment_foldl start stop hstart (primesThrough (Nat.sqrt (stop - 1))) []
    (fun p hp => (mem_primesThrough.mp hp).1) (nodup_primesThrough _) (by simp)
    (fun offset => { remaining := start + offset, value := 1 })
    (fun offset _ => entryOf_start (start + offset)) offset (by omega)
  refine @entryOf_finish (start + offset) (Nat.sqrt (stop - 1)) _ _ (by omega) ?_ ?_ hentry
  · have := Nat.lt_succ_sqrt (stop - 1)
    rw [Nat.succ_eq_add_one] at this
    omega
  · intro q hq hle
    rw [List.append_nil, List.mem_reverse]
    exact mem_primesThrough.mpr ⟨hq, hle⟩

/-! ## The two sieves agree -/

/-- The linear sieve never writes at 0. -/
theorem strikeMultiples_zero {limit number : Nat} (hnumber : 2 ≤ number) {primes : List Nat}
    (hprime : ∀ p ∈ primes, p.Prime) (s : MobiusSieve) :
    (strikeMultiples limit number primes s).mu 0 = s.mu 0 := by
  induction primes generalizing s with
  | nil => rfl
  | cons p rest ih =>
      have hpos : 0 ≠ number * p :=
        (Nat.mul_pos (by omega) (hprime p List.mem_cons_self).pos).ne
      unfold strikeMultiples
      dsimp only
      split
      · rfl
      · split
        · exact Function.update_of_ne hpos _ _
        · rw [ih fun q hq => hprime q (List.mem_cons_of_mem p hq)]
          exact Function.update_of_ne hpos _ _

theorem sieveNumber_zero {limit n : Nat} (hn : 2 ≤ n) (hlimit : n ≤ limit) {s : MobiusSieve}
    (h : SievedBelow limit n s) : (sieveNumber limit s n).mu 0 = s.mu 0 := by
  have hfound := findPrime_spec hn hlimit h
  unfold sieveNumber
  rw [strikeMultiples_zero hn fun p hp => ((hfound.primes p).mp hp).1]
  unfold findPrime
  split
  · rfl
  · exact Function.update_of_ne (by omega) _ _

theorem sieveNumber_foldl_zero {limit count n : Nat} (hn : 2 ≤ n) (hcount : n + count ≤ limit + 1)
    {s : MobiusSieve} (h : SievedBelow limit n s) :
    ((List.range' n count).foldl (sieveNumber limit) s).mu 0 = s.mu 0 := by
  induction count generalizing n s with
  | zero => rfl
  | succ count ih =>
      rw [List.range'_succ, List.foldl_cons,
        ih (by omega) (by omega) (sieveNumber_spec hn (by omega) h),
        sieveNumber_zero hn (by omega) h]

/-- `mu[0]` stays 0. -/
theorem mobiusLinear_zero {limit : Nat} (hlimit : 1 ≤ limit) : mobiusLinear limit 0 = 0 :=
  sieveNumber_foldl_zero le_rfl (by omega) (sievedBelow_start limit)

theorem requireAtLeast_ok {name : String} {value minimum : Int} {u : Unit} :
    requireAtLeast name value minimum = .ok u ↔ minimum ≤ value := by
  unfold requireAtLeast
  rw [refuseIf_ok, not_lt]

/-- **The list of the linear sieve.** -/
theorem mobiusLinearValues_ok {limit : Int} {values : List Int} :
    mobiusLinearValues limit = .ok values
      ↔ 0 ≤ limit ∧ values = (List.range (limit.toNat + 1)).map fun n => moebius n := by
  unfold mobiusLinearValues
  simp only [bind_ok, requireAtLeast_ok, pure_ok, exists_and_left, exists_const]
  refine and_congr_right fun hlimit => ?_
  suffices hvalues : (if limit = 0 then [0]
      else (List.range (limit.toNat + 1)).map (mobiusLinear limit.toNat))
      = (List.range (limit.toNat + 1)).map fun n => moebius n by
    rw [hvalues, eq_comm]
  split
  · rename_i h0
    subst h0
    simp
  · rename_i h0
    refine List.map_congr_left fun n hn => ?_
    have hn := List.mem_range.mp hn
    by_cases hzero : n = 0
    · rw [hzero, mobiusLinear_zero (by omega), ArithmeticFunction.map_zero]
    · exact mobiusLinear_eq (by omega) (by omega)

/-- **The list of the segmented sieve.** -/
theorem mobiusSegment_ok {start stop : Int} {values : List Int} :
    mobiusSegment start stop = .ok values
      ↔ 1 ≤ start ∧ start ≤ stop ∧ values
        = (List.range (stop.toNat - start.toNat)).map fun offset =>
            moebius (start.toNat + offset) := by
  unfold mobiusSegment
  simp only [bind_ok, requireAtLeast_ok, refuseIf_ok, not_lt, pure_ok, exists_and_left,
    exists_const]
  refine and_congr_right fun hstart => ?_
  suffices hvalues : (if stop = start then [] else segmentValues start.toNat stop.toNat)
      = (List.range (stop.toNat - start.toNat)).map fun offset =>
          moebius (start.toNat + offset) by
    rw [hvalues, eq_comm]
    constructor
    · rintro ⟨-, hstop, h⟩
      exact ⟨hstop, h⟩
    · rintro ⟨hstop, h⟩
      exact ⟨by omega, hstop, h⟩
  split
  · rename_i heq
    rw [heq, Nat.sub_self]
    rfl
  · exact segmentValues_eq (by omega)

/--
**The two sieves agree.** On every limit and every segment they accept, each lists the
Möbius function (0 at index 0 of the linear one), so they agree wherever both are defined.
-/
theorem mobius_sieves_agree {limit start stop : Int} {linear segment : List Int}
    (hlinear : mobiusLinearValues limit = .ok linear)
    (hsegment : mobiusSegment start stop = .ok segment) :
    (linear.length = limit.toNat + 1
        ∧ ∀ n : Nat, n ≤ limit → linear[n]? = some (moebius n))
      ∧ (segment.length = (stop - start).toNat
        ∧ ∀ n : Nat, start ≤ n → n < stop → segment[n - start.toNat]? = some (moebius n))
      ∧ ∀ n : Nat, n ≤ limit → start ≤ n → n < stop → linear[n]? = segment[n - start.toNat]? := by
  obtain ⟨hlimit, rfl⟩ := mobiusLinearValues_ok.mp hlinear
  obtain ⟨hstart, hstop, rfl⟩ := mobiusSegment_ok.mp hsegment
  have hlin : ∀ n : Nat, n ≤ limit →
      ((List.range (limit.toNat + 1)).map fun n => moebius n)[n]? = some (moebius n) := by
    intro n hn
    rw [List.getElem?_map, List.getElem?_range (by omega)]
    rfl
  have hseg : ∀ n : Nat, start ≤ n → n < stop →
      ((List.range (stop.toNat - start.toNat)).map fun offset =>
        moebius (start.toNat + offset))[n - start.toNat]? = some (moebius n) := by
    intro n hn hn'
    rw [List.getElem?_map, List.getElem?_range (by omega), Option.map_some,
      Nat.add_sub_of_le (by omega)]
  refine ⟨⟨by simp, hlin⟩, ⟨by simp; omega, hseg⟩, fun n hn hn1 hn2 => ?_⟩
  rw [hlin n hn, hseg n hn1 hn2]

/-- The sieve through 30 and the segment `[20, 27)`, which ends beyond the square of 5. -/
theorem mobius_sieves_agree_twenty :
    (∃ linear segment, mobiusLinearValues 30 = .ok linear ∧ mobiusSegment 20 27 = .ok segment
      ∧ linear[26]? = segment[6]?) := by
  obtain ⟨linear, hlinear⟩ : ∃ linear, mobiusLinearValues 30 = .ok linear :=
    ⟨_, mobiusLinearValues_ok.mpr ⟨by decide, rfl⟩⟩
  obtain ⟨segment, hsegment⟩ : ∃ segment, mobiusSegment 20 27 = .ok segment :=
    ⟨_, mobiusSegment_ok.mpr ⟨by decide, by decide, rfl⟩⟩
  exact ⟨linear, segment, hlinear, hsegment,
    (mobius_sieves_agree hlinear hsegment).2.2 26 (by decide) (by decide) (by decide)⟩

end AttestedCompute.Arithmetic
