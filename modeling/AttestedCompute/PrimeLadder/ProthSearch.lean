import AttestedCompute.PrimeLadder.Certificate

/-!
# The search for a Proth prime

`find_proth` of `tg_verifier/goldbach_campaign.py` runs down the numbers of Proth shape
between two bounds and tries each with the first source witness of Jacobi symbol −1.
Below `2 ^ (2 e)` that finds what `check_proth` accepts: by Euler's criterion the first
such witness decides as well as any. The search has no bound on the cofactor, though,
and `check_proth` has: a candidate whose cofactor is at least `2 ^ e` is returned and
then rejected.
-/

namespace AttestedCompute.PrimeLadder

open Fallible (bind_ok pure_ok)

inductive CertificateKind where
  | direct64
  | proth52
  | proth
  | pocklington
  | external
  deriving DecidableEq, Repr

structure Rung where
  number : Int
  certificateKind : CertificateKind
  witness : Option Int
  certificateSha256 : Option Text
  deriving DecidableEq

def PROTH_EXPONENT : Int := 52

/-- The first witness of Jacobi symbol −1. -/
def firstNegative (number : Int) : List Int → Checked (Option Int)
  | [] => .ok none
  | witness :: rest => do
      let negative ← jacobiIsMinusOne witness number
      if negative then pure (some witness) else firstNegative number rest

/-- The loop over the witnesses: only the first of symbol −1 is tried. -/
def candidateWitness (number : Int) : Checked (Option Int) := do
  match ← firstNegative number SOURCE_PROTH_WITNESSES with
  | none => pure none
  | some witness => pure (if halfPowerIsMinusOne witness number then some witness else none)

/-- `while k > k0 and k > 0` -/
def searchFrom (prothExponent k0 : Int) : Nat → Checked (Option Rung)
  | 0 => .ok none
  | k + 1 =>
      if k0 < (k + 1 : Nat) then do
        let number : Int := (k + 1 : Nat) * 2 ^ prothExponent.toNat + 1
        match ← candidateWitness number with
        | some witness =>
            let kind := if prothExponent = PROTH_EXPONENT then .proth52 else .proth
            pure (some { number := number, certificateKind := kind, witness := some witness
                         certificateSha256 := none })
        | none => searchFrom prothExponent k0 k
      else .ok none

/-- `find_proth` -/
def findProth (lowerExclusive upperExclusive prothExponent : Int) : Checked (Option Rung) :=
  if ¬ (1 ≤ prothExponent ∧ prothExponent ≤ 63) then fail "Proth exponent must lie in [1,63]"
  else if upperExclusive ≤ lowerExclusive + 1 then .ok none
  else
    let prothPower : Int := 2 ^ prothExponent.toNat
    let k := (upperExclusive - 2) / prothPower
    let k0 := (lowerExclusive - 1) / prothPower
    searchFrom prothExponent k0 k.toNat

/-! ## One candidate -/

/-- The first witness in the list with symbol −1, as a search over the symbols. -/
theorem firstNegative_eq {n : Nat} (hn : n % 2 = 1) (ws : List Int) :
    firstNegative n ws = .ok (ws.find? fun w => jacobiSym w n = -1) := by
  induction ws with
  | nil => rfl
  | cons w ws ih =>
      unfold firstNegative jacobiIsMinusOne
      rw [jacobiSymbol_eq w hn, ih, List.find?_cons]
      by_cases hw : jacobiSym w n = -1
      · simp [hw, bind, Except.bind, pure, Except.pure]
      · simp [hw, bind, Except.bind]

/-- The candidate passes the test of the search. -/
def PassesSearch (number : Int) : Prop := ∃ w, candidateWitness number = .ok (some w)

theorem candidateWitness_total {n : Nat} (hn : n % 2 = 1) : ∃ r, candidateWitness n = .ok r := by
  unfold candidateWitness
  rw [firstNegative_eq hn]
  cases List.find? (fun w => decide (jacobiSym w n = -1)) SOURCE_PROTH_WITNESSES with
  | none => exact ⟨none, rfl⟩
  | some w => exact ⟨_, rfl⟩

theorem candidateWitness_some {n : Nat} (hn : n % 2 = 1) {w : Int}
    (h : candidateWitness n = .ok (some w)) :
    w ∈ SOURCE_PROTH_WITNESSES ∧ jacobiSym w n = -1 ∧ halfPowerIsMinusOne w n = true := by
  unfold candidateWitness at h
  rw [firstNegative_eq hn] at h
  cases hfind : SOURCE_PROTH_WITNESSES.find? fun w => jacobiSym w n = -1 with
  | none =>
      rw [hfind] at h
      exact absurd (Except.ok.inj h) (by simp)
  | some v =>
      rw [hfind] at h
      have h := Except.ok.inj h
      split at h
      · rename_i hpow
        obtain rfl := Option.some.inj h
        exact ⟨List.mem_of_find?_eq_some hfind, by simpa using List.find?_some hfind, hpow⟩
      · exact absurd h (by simp)

/-- A prime that fails the test has no witness of symbol −1 at all, by Euler's criterion. -/
theorem candidateWitness_none {n : Nat} (hn : n % 2 = 1) (hprime : n.Prime)
    (h : candidateWitness n = .ok none) : ∀ w ∈ SOURCE_PROTH_WITNESSES, jacobiSym w n ≠ -1 := by
  unfold candidateWitness at h
  rw [firstNegative_eq hn] at h
  cases hfind : SOURCE_PROTH_WITNESSES.find? fun w => jacobiSym w n = -1 with
  | none =>
      intro w hw hj
      exact absurd hj (by simpa using List.find?_eq_none.mp hfind w hw)
  | some v =>
      rw [hfind] at h
      have h := Except.ok.inj h
      have hv : jacobiSym v n = -1 := by simpa using List.find?_some hfind
      have hnonneg : ∀ w ∈ SOURCE_PROTH_WITNESSES, 0 ≤ w := by decide
      obtain ⟨a, rfl⟩ := Int.eq_ofNat_of_zero_le (hnonneg v (List.mem_of_find?_eq_some hfind))
      have hpow := (halfPowerIsMinusOne_iff hprime.one_lt).mpr
        (PrimalityCriteria.pow_half_of_jacobiSym hprime hn hv)
      rw [if_pos hpow] at h
      exact absurd h (by simp)

/-! ## The candidate and the checker -/

/-- The candidate with cofactor `k`. -/
def prothNumber (e k : Nat) : Nat := k * 2 ^ e + 1

theorem prothNumber_odd {e : Nat} (he : 0 < e) (k : Nat) : prothNumber e k % 2 = 1 := by
  have := (dvd_pow_self 2 he.ne').mul_left k
  unfold prothNumber
  omega

theorem prothShape_prothNumber {e k : Nat} (he : 0 < e) :
    ProthShape (prothNumber e k) e ↔ 0 < k ∧ k < 2 ^ e := by
  constructor
  · rintro ⟨e', k', he', -, hk, hsize, hnum⟩
    obtain rfl : e = e' := by exact_mod_cast he'
    have hnum : k * 2 ^ e + 1 = k' * 2 ^ e + 1 := by exact_mod_cast hnum
    have hkk : k = k' := Nat.eq_of_mul_eq_mul_right (Nat.two_pow_pos e) (Nat.succ.inj hnum)
    exact hkk ▸ ⟨hk, hsize⟩
  · rintro ⟨hk, hsize⟩
    exact ⟨e, k, rfl, he, hk, hsize, rfl⟩

/-- Some source witness makes the checker accept. -/
def Accepted (prothExponent number : Int) : Prop :=
  ∃ w, checkProth number w prothExponent = .ok true

/-- **With a small cofactor the search tests for what the checker accepts.** -/
theorem accepted_iff {e k : Nat} (he : 0 < e) (he63 : e ≤ 63) (hk : 0 < k) (hsize : k < 2 ^ e) :
    Accepted e (prothNumber e k) ↔ PassesSearch (prothNumber e k) := by
  have hodd := prothNumber_odd he k
  constructor
  · rintro ⟨w, hw⟩
    obtain ⟨-, hmem, -, hj, -⟩ := checkProth_ok.mp hw
    obtain ⟨n, hn, hprime⟩ := checkProth_prime hw
    obtain rfl : prothNumber e k = n := by exact_mod_cast hn
    obtain ⟨r, hr⟩ := candidateWitness_total hodd
    cases r with
    | some v => exact ⟨v, hr⟩
    | none => exact absurd hj (candidateWitness_none hodd hprime hr w hmem)
  · rintro ⟨w, hw⟩
    obtain ⟨hmem, hj, hpow⟩ := candidateWitness_some hodd hw
    exact ⟨w, checkProth_ok.mpr
      ⟨by omega, hmem, (prothShape_prothNumber he).mpr ⟨hk, hsize⟩, hj, hpow⟩⟩

/-- An accepted number is a candidate with a small cofactor. -/
theorem Accepted.shape {e : Nat} {number : Int} (h : Accepted e number) :
    ∃ k, 0 < k ∧ k < 2 ^ e ∧ number = prothNumber e k := by
  obtain ⟨w, hw⟩ := h
  obtain ⟨-, -, ⟨e', k, he', -, hk, hsize, rfl⟩, -⟩ := checkProth_ok.mp hw
  obtain rfl : e = e' := by exact_mod_cast he'
  exact ⟨k, hk, hsize, rfl⟩

/-! ## The search -/

/-- The cofactors between the bounds. -/
theorem between_iff {lower upper : Int} {e k : Nat} :
    (lower < prothNumber e k ∧ prothNumber e k < upper)
      ↔ (lower - 1) / 2 ^ e < k ∧ (k : Int) ≤ (upper - 2) / 2 ^ e := by
  have hpos : (0 : Int) < 2 ^ e := by positivity
  rw [Int.ediv_lt_iff_lt_mul hpos, Int.le_ediv_iff_mul_le hpos]
  unfold prothNumber
  push_cast
  constructor
  · intro h
    omega
  · intro h
    omega

/-- The rung `find_proth` builds for a cofactor. -/
def rungOf (e k : Nat) (w : Int) : Rung :=
  { number := prothNumber e k
    certificateKind := if (e : Int) = PROTH_EXPONENT then .proth52 else .proth
    witness := some w, certificateSha256 := none }

/-- **What the search returns**: the largest cofactor that passes, if any does. -/
theorem searchFrom_cases {e : Nat} (he : 0 < e) (k0 : Int) (top : Nat) :
    (∃ k w, searchFrom e k0 top = .ok (some (rungOf e k w)) ∧ 0 < k ∧ k0 < k ∧ k ≤ top
        ∧ candidateWitness (prothNumber e k) = .ok (some w)
        ∧ ∀ j, k < j → j ≤ top → ¬ PassesSearch (prothNumber e j))
      ∨ (searchFrom e k0 top = .ok none
        ∧ ∀ j : Nat, 0 < j → k0 < j → j ≤ top → ¬ PassesSearch (prothNumber e j)) := by
  induction top with
  | zero => exact .inr ⟨rfl, fun j hj _ hle => by omega⟩
  | succ top ih =>
      unfold searchFrom
      by_cases hk0 : k0 < (top + 1 : Nat)
      swap
      · rw [if_neg hk0]
        exact .inr ⟨rfl, fun j _ hj hle => absurd hj (by omega)⟩
      rw [if_pos hk0, Int.toNat_natCast]
      have hnumber : ((top + 1 : Nat) : Int) * 2 ^ e + 1 = prothNumber e (top + 1) := by
        unfold prothNumber
        push_cast
        rfl
      obtain ⟨r, hr⟩ := candidateWitness_total (prothNumber_odd he (top + 1))
      rw [hnumber]
      dsimp only
      rw [hr]
      cases r with
      | some w =>
          exact .inl ⟨top + 1, w, rfl, by omega, hk0, le_rfl, hr, fun j hj hle => by omega⟩
      | none =>
          -- the candidate fails, and the search goes on below it
          have hfails : ¬ PassesSearch (prothNumber e (top + 1)) := by
            rintro ⟨w, hw⟩
            exact absurd (hr.symm.trans hw) (by simp)
          have hnext : ∀ {P : Nat → Prop}, (∀ j, P j → j ≤ top → ¬ PassesSearch (prothNumber e j)) →
              ∀ j, P j → j ≤ top + 1 → ¬ PassesSearch (prothNumber e j) := by
            intro P h j hP hle
            by_cases hj : j = top + 1
            · exact hj ▸ hfails
            · exact h j hP (by omega)
          rcases ih with ⟨k, w, hrun, hk, hk0', hle, hw, hlater⟩ | ⟨hrun, hnone⟩
          · exact .inl ⟨k, w, hrun, hk, hk0', by omega, hw, hnext hlater⟩
          · refine .inr ⟨hrun, fun j hj hj0 hle => ?_⟩
            exact @hnext (fun j => 0 < j ∧ k0 < j) (fun j hj => hnone j hj.1 hj.2) j ⟨hj, hj0⟩ hle

/-- `find_proth` returns the largest accepted number between the bounds, with a witness of
its own, or nothing when there is none. -/
def SearchExact (lower upper prothExponent : Int) : Prop :=
  match findProth lower upper prothExponent with
  | .ok (some r) =>
      (lower < r.number ∧ r.number < upper)
        ∧ (∃ w, r.witness = some w ∧ checkProth r.number w prothExponent = .ok true)
        ∧ ∀ n, lower < n → n < upper → Accepted prothExponent n → n ≤ r.number
  | .ok none => ∀ n, lower < n → n < upper → ¬ Accepted prothExponent n
  | .error _ => False

/-- No candidate with a cofactor of at least `2 ^ e` between the bounds passes the test. -/
def NoLargeCofactor (lower upper : Int) (e : Nat) : Prop :=
  ∀ k : Nat, 2 ^ e ≤ k → lower < prothNumber e k → prothNumber e k < upper →
    ¬ PassesSearch (prothNumber e k)

/--
**The search is exact unless a large cofactor passes.** `find_proth` agrees with
`check_proth` exactly when no candidate whose cofactor is at least `2 ^ e` lies between the
bounds and passes the search's own test.
-/
theorem findProth_exact_iff {lower upper : Int} {e : Nat} (he : 1 ≤ e) (he63 : e ≤ 63)
    (hbounds : lower < upper) :
    SearchExact lower upper e ↔ NoLargeCofactor lower upper e := by
  have hbetween := fun k => @between_iff lower upper e k
  unfold SearchExact findProth
  rw [if_neg (by omega)]
  split_ifs with hempty
  · -- nothing lies between the bounds
    refine ⟨fun _ k _ hlo hhi => by omega, fun _ n hlo hhi => by omega⟩
  dsimp only
  rw [Int.toNat_natCast]
  have htop : ∀ j : Nat, 0 < j →
      (j ≤ ((upper - 2) / 2 ^ e).toNat ↔ (j : Int) ≤ (upper - 2) / 2 ^ e) := by
    intro j hj
    omega
  rcases searchFrom_cases he ((lower - 1) / 2 ^ e) ((upper - 2) / 2 ^ e).toNat with
    ⟨k, w, hrun, hk, hk0, hle, hw, hlater⟩ | ⟨hrun, hnone⟩
  · rw [hrun]
    have hin := (hbetween k).mpr ⟨hk0, (htop k hk).mp hle⟩
    constructor
    · rintro ⟨-, ⟨v, -, hv⟩, -⟩ j hj hlo hhi hpasses
      -- the search stopped no lower than at `j`, but was accepted
      have hkj : j ≤ k := by
        by_contra hlt
        have hjtop := (htop j (by omega)).mpr ((hbetween j).mp ⟨hlo, hhi⟩).2
        exact hlater j (by omega) hjtop hpasses
      obtain ⟨-, -, hshape, -⟩ := checkProth_ok.mp hv
      have hsmall := ((prothShape_prothNumber he).mp hshape).2
      omega
    · intro hlarge
      have hsmall : k < 2 ^ e := by
        by_contra hbig
        exact hlarge k (by omega) hin.1 hin.2 ⟨w, hw⟩
      obtain ⟨hmem, hj, hpow⟩ := candidateWitness_some (prothNumber_odd he k) hw
      refine ⟨hin, ⟨w, rfl, checkProth_ok.mpr ⟨by omega, hmem,
        (prothShape_prothNumber he).mpr ⟨hk, hsmall⟩, hj, hpow⟩⟩, ?_⟩
      intro n hlo hhi hacc
      obtain ⟨j, hj0, hjsize, rfl⟩ := hacc.shape
      have hjk : j ≤ k := by
        by_contra hlt
        have hjtop := (htop j hj0).mpr ((hbetween j).mp ⟨hlo, hhi⟩).2
        exact hlater j (by omega) hjtop ((accepted_iff he he63 hj0 hjsize).mp hacc)
      have := Nat.mul_le_mul_right (2 ^ e) hjk
      show (prothNumber e j : Int) ≤ prothNumber e k
      unfold prothNumber
      omega
  · rw [hrun]
    have hall : ∀ j : Nat, 0 < j → lower < prothNumber e j → prothNumber e j < upper →
        ¬ PassesSearch (prothNumber e j) := by
      intro j hj hlo hhi
      obtain ⟨h0, h1⟩ := (hbetween j).mp ⟨hlo, hhi⟩
      exact hnone j hj h0 ((htop j hj).mpr h1)
    constructor
    · intro _ k hk hlo hhi
      exact hall k (lt_of_lt_of_le (Nat.two_pow_pos e) hk) hlo hhi
    · intro _ n hlo hhi hacc
      obtain ⟨j, hj0, hjsize, rfl⟩ := hacc.shape
      exact hall j hj0 hlo hhi ((accepted_iff he he63 hj0 hjsize).mp hacc)

/-- Between 3 and 9 at exponent 2 the search has only the cofactor 1 to try. -/
theorem findProth_exact_small : SearchExact 3 9 2 := by
  refine (@findProth_exact_iff 3 9 2 (by decide) (by decide) (by decide)).mpr ?_
  intro k hk _ hhi
  unfold prothNumber at hhi
  omega

/-- With exponent 1 the search between 3 and 6 returns 5, whose cofactor is 2. -/
theorem findProth_large_cofactor :
    findProth 3 6 1 = .ok (some (rungOf 1 2 2)) ∧ checkProth 5 2 1 = .ok false
      ∧ ¬ SearchExact 3 6 1 := by
  have hfind : findProth 3 6 1 = .ok (some (rungOf 1 2 2)) := by decide +kernel
  have hcheck : checkProth 5 2 1 = .ok false := by decide +kernel
  refine ⟨hfind, hcheck, ?_⟩
  unfold SearchExact
  rw [hfind]
  rintro ⟨-, ⟨w, hw, hok⟩, -⟩
  obtain rfl := Option.some.inj hw
  exact absurd (hcheck.symm.trans hok) (by decide)

end AttestedCompute.PrimeLadder
