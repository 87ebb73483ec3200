import Mathlib

/-!
# The totient sieve

`_totients_through` starts from the identity and takes one part in `p` away from every multiple of
each prime `p`. A number is found to be prime when nothing has been taken away from it.
-/

namespace AttestedCompute.Finite

/-- `phi[multiple] -= phi[multiple] // prime` -/
def removePart (prime : Nat) (phi : Nat → Nat) (multiple : Nat) : Nat → Nat :=
  Function.update phi multiple (phi multiple - phi multiple / prime)

/-- One number of the outer loop; `range(prime, limit + 1, prime)` has `limit // prime` items. -/
def sieveTotient (limit : Nat) (phi : Nat → Nat) (prime : Nat) : Nat → Nat :=
  if phi prime ≠ prime then phi
  else (List.range' prime (limit / prime) prime).foldl (removePart prime) phi

/-- `_totients_through` -/
def totientsThrough (limit : Nat) : Nat → Nat :=
  (List.range' 2 (limit - 1)).foldl (sieveTotient limit) id

/-! ## One prime -/

theorem removePart_foldl {prime n : Nat} {multiples : List Nat} (h : multiples.Nodup)
    {phi : Nat → Nat} :
    multiples.foldl (removePart prime) phi n =
      if n ∈ multiples then phi n - phi n / prime else phi n := by
  induction multiples generalizing phi with
  | nil => rfl
  | cons m rest ih =>
      have hrest := List.nodup_cons.mp h
      rw [List.foldl_cons, ih hrest.2, removePart]
      by_cases hn : n = m
      · subst hn
        simp [hrest.1]
      · simp [hn]

theorem mem_multiples {limit prime n : Nat} (hprime : 0 < prime) :
    n ∈ List.range' prime (limit / prime) prime ↔ 1 ≤ n ∧ n ≤ limit ∧ prime ∣ n := by
  rw [List.mem_range']
  constructor
  · intro h
    obtain ⟨i, hi, rfl⟩ := h
    have hle : (i + 1) * prime ≤ limit :=
      (Nat.mul_le_mul_right prime hi).trans (Nat.div_mul_le_self limit prime)
    rw [show prime + prime * i = (i + 1) * prime by ring]
    exact ⟨Nat.mul_pos (Nat.succ_pos i) hprime, hle, Nat.dvd_mul_left prime (i + 1)⟩
  · intro h
    obtain ⟨hn, hlimit, k, rfl⟩ := h
    obtain ⟨i, rfl⟩ : ∃ i, k = i + 1 := ⟨k - 1, by
      have : k ≠ 0 := fun hk => by simp [hk] at hn
      omega⟩
    refine ⟨i, ?_, by ring⟩
    rw [Nat.lt_iff_add_one_le, Nat.le_div_iff_mul_le hprime, mul_comm]
    exact hlimit

theorem nodup_multiples {limit prime : Nat} (hprime : 0 < prime) :
    (List.range' prime (limit / prime) prime).Nodup :=
  List.nodup_range' prime hprime

/-! ## The sieve up to a frontier -/

/-- The primes below the frontier that divide the number. -/
def factorsBelow (frontier n : Nat) : Finset Nat := n.primeFactors.filter (· < frontier)

/-- Euler's product formula over the primes that are done. -/
def TotientsBelow (limit frontier : Nat) (phi : Nat → Nat) : Prop :=
  ∀ n, 1 ≤ n → n ≤ limit →
    phi n * ∏ p ∈ factorsBelow frontier n, p = n * ∏ p ∈ factorsBelow frontier n, (p - 1)

theorem prime_of_mem_factorsBelow {frontier n p : Nat} (h : p ∈ factorsBelow frontier n) :
    p.Prime := Nat.prime_of_mem_primeFactors (Finset.mem_filter.mp h).1

/-- A prime that divides the number joins its factors when the frontier passes it. -/
theorem factorsBelow_succ_of_dvd {p n : Nat} (hp : p.Prime) (hn : n ≠ 0) (hdvd : p ∣ n) :
    factorsBelow (p + 1) n = insert p (factorsBelow p n) := by
  ext q
  simp only [factorsBelow, Finset.mem_filter, Finset.mem_insert, Nat.mem_primeFactors]
  constructor
  · intro h
    by_cases hq : q = p
    · exact .inl hq
    · exact .inr ⟨h.1, by omega⟩
  · intro h
    rcases h with rfl | h
    · exact ⟨⟨hp, hdvd, hn⟩, by omega⟩
    · exact ⟨h.1, by omega⟩

theorem factorsBelow_succ_of_not {p n : Nat} (h : p ∉ n.primeFactors) :
    factorsBelow (p + 1) n = factorsBelow p n := by
  refine Finset.filter_congr fun q hq => ?_
  have : q ≠ p := fun hqp => h (hqp ▸ hq)
  omega

/-- **What is left when one part in `p` is taken away.** -/
theorem removePart_value {p n phi : Nat} (hp : p.Prime) (hn : n ≠ 0) (hdvd : p ∣ n)
    (h : phi * ∏ q ∈ factorsBelow p n, q = n * ∏ q ∈ factorsBelow p n, (q - 1)) :
    (phi - phi / p) * ∏ q ∈ factorsBelow (p + 1) n, q =
      n * ∏ q ∈ factorsBelow (p + 1) n, (q - 1) := by
  have hnot : p ∉ factorsBelow p n := by simp [factorsBelow]
  -- the primes below `p` are coprime to it, so `p` divides the entry itself
  have hcoprime : Nat.Coprime p (∏ q ∈ factorsBelow p n, q) := by
    refine Nat.Coprime.prod_right fun q hq => ?_
    have hlt := (Finset.mem_filter.mp hq).2
    exact (Nat.coprime_primes hp (prime_of_mem_factorsBelow hq)).mpr (by omega)
  have hphi : p ∣ phi := by
    refine hcoprime.dvd_of_dvd_mul_right ?_
    rw [h]
    exact hdvd.mul_right _
  obtain ⟨c, rfl⟩ := hphi
  rw [factorsBelow_succ_of_dvd hp hn hdvd, Finset.prod_insert hnot, Finset.prod_insert hnot,
    Nat.mul_div_cancel_left c hp.pos, ← Nat.sub_one_mul]
  calc (p - 1) * c * (p * ∏ q ∈ factorsBelow p n, q)
      = (p - 1) * (p * c * ∏ q ∈ factorsBelow p n, q) := by ring
    _ = (p - 1) * (n * ∏ q ∈ factorsBelow p n, (q - 1)) := by rw [h]
    _ = n * ((p - 1) * ∏ q ∈ factorsBelow p n, (q - 1)) := by ring

/-- A number above 1 has kept its own value exactly when it is prime. -/
theorem totientsBelow_self {limit n : Nat} {phi : Nat → Nat} (hn : 2 ≤ n) (hlimit : n ≤ limit)
    (h : TotientsBelow limit n phi) : phi n = n ↔ n.Prime := by
  have hvalue := h n (by omega) hlimit
  constructor
  · intro hphi
    by_contra hprime
    have hmin := Nat.minFac_prime (show n ≠ 1 by omega)
    have hmem : n.minFac ∈ factorsBelow n n := by
      refine Finset.mem_filter.mpr ⟨?_, (Nat.not_prime_iff_minFac_lt hn).mp hprime⟩
      exact Nat.mem_primeFactors.mpr ⟨hmin, Nat.minFac_dvd n, by omega⟩
    rw [hphi] at hvalue
    have hequal := Nat.eq_of_mul_eq_mul_left (by omega) hvalue
    -- a product with a smaller factor in it is smaller
    have hless : ∏ p ∈ factorsBelow n n, (p - 1) < ∏ p ∈ factorsBelow n n, p := by
      refine Finset.prod_lt_prod ?_ ?_ ⟨n.minFac, hmem, ?_⟩
      · intro p hp
        have := (prime_of_mem_factorsBelow hp).two_le
        omega
      · intro p _
        omega
      · have := hmin.pos
        omega
    omega
  · intro hprime
    have hempty : factorsBelow n n = ∅ := by
      refine Finset.filter_eq_empty_iff.mpr fun p hp => ?_
      rw [hprime.primeFactors, Finset.mem_singleton] at hp
      omega
    rwa [hempty, Finset.prod_empty, Finset.prod_empty, mul_one, mul_one] at hvalue

/-- **One number of the outer loop.** -/
theorem sieveTotient_spec {limit p : Nat} {phi : Nat → Nat} (hp : 2 ≤ p) (hlimit : p ≤ limit)
    (h : TotientsBelow limit p phi) : TotientsBelow limit (p + 1) (sieveTotient limit phi p) := by
  have hself := totientsBelow_self hp hlimit h
  intro n hn hnl
  unfold sieveTotient
  split
  · rename_i hphi
    have hprime : ¬ p.Prime := fun hprime => hphi (hself.mpr hprime)
    rw [factorsBelow_succ_of_not fun hmem => hprime (Nat.prime_of_mem_primeFactors hmem)]
    exact h n hn hnl
  · rename_i hphi
    have hprime := hself.mp (not_not.mp hphi)
    rw [removePart_foldl (nodup_multiples (by omega))]
    by_cases hdvd : p ∣ n
    · rw [if_pos ((mem_multiples (by omega)).mpr ⟨hn, hnl, hdvd⟩)]
      exact removePart_value hprime (by omega) hdvd (h n hn hnl)
    · rw [if_neg fun hmem => hdvd ((mem_multiples (by omega)).mp hmem).2.2,
        factorsBelow_succ_of_not fun hmem => hdvd (Nat.dvd_of_mem_primeFactors hmem)]
      exact h n hn hnl

theorem totientsBelow_start (limit : Nat) : TotientsBelow limit 2 id := by
  intro n _ _
  have hempty : factorsBelow 2 n = ∅ := by
    refine Finset.filter_eq_empty_iff.mpr fun p hp => ?_
    have := (Nat.prime_of_mem_primeFactors hp).two_le
    omega
  rw [hempty, Finset.prod_empty, Finset.prod_empty, id]

theorem totientsBelow_foldl {limit count p : Nat} (hp : 2 ≤ p) (hcount : p + count ≤ limit + 1)
    {phi : Nat → Nat} (h : TotientsBelow limit p phi) :
    TotientsBelow limit (p + count) ((List.range' p count).foldl (sieveTotient limit) phi) := by
  induction count generalizing p phi with
  | zero => exact h
  | succ count ih =>
      rw [List.range'_succ, List.foldl_cons]
      have hnext := sieveTotient_spec hp (by omega) h
      have := ih (by omega) (by omega) hnext
      rwa [show p + (count + 1) = p + 1 + count by omega]

/-- **`_totients_through` computes the totient function.** -/
theorem totientsThrough_eq {limit n : Nat} (hn : 1 ≤ n) (hlimit : n ≤ limit) :
    totientsThrough limit n = n.totient := by
  by_cases hone : limit = 1
  · obtain rfl : n = 1 := by omega
    rw [hone]
    rfl
  have hsieved := totientsBelow_foldl le_rfl (show 2 + (limit - 1) ≤ limit + 1 by omega)
    (totientsBelow_start limit) n hn hlimit
  have hall : factorsBelow (2 + (limit - 1)) n = n.primeFactors := by
    refine Finset.filter_true_of_mem fun p hp => ?_
    have := Nat.le_of_mem_primeFactors hp
    omega
  rw [hall, ← Nat.totient_mul_prod_primeFactors] at hsieved
  exact Nat.eq_of_mul_eq_mul_right
    (Finset.prod_pos fun p hp => Nat.pos_of_mem_primeFactors hp) hsieved

end AttestedCompute.Finite
