import AttestedCompute.PrimeLadder.Primality
import AttestedCompute.Lib.JsonLoads
import AttestedCompute.Lib.Fallible

/-!
# Primality certificates

`check_pocklington_object` and `check_proth` of `tg_verifier/goldbach_campaign.py`.
A Pocklington certificate names prime factors of the predecessor and a witness for
each; a factor of more than 64 bits carries a certificate of its own, at most 32
levels deep. Every error on the way makes the certificate invalid.

The bounded primality test of the small factors is a parameter of the checker, so
that soundness can be stated from the soundness of that test alone.
-/

namespace AttestedCompute.PrimeLadder

open Fallible (refuseIf refuseIf_ok bind_ok pure_ok)
open JsonLoads (Value)
open PrimalityCriteria (powMod powMod_eq Witnesses)

/-- `CampaignError` with its text, and the errors of `int` and of `jacobi_symbol`. -/
inductive Failure where
  | campaign (message : String)
  | tooManyDigits
  | jacobi (e : JacobiError)
  deriving DecidableEq

abbrev Checked := Except Failure

def fail {α : Type} (message : String) : Checked α := .error (.campaign message)

def POCKLINGTON_KIND : Text := Text.ofString "tg_pocklington_certificate_v1"

def MAX_UINT64 : Nat := 2 ^ 64 - 1

/-! ## Fields of an object -/

/-- `set(members) == set(keys)` -/
def hasKeys (members : List (Text × Value)) (keys : List Text) : Bool :=
  (members.all fun m => m.1 ∈ keys) && keys.all fun key => members.any fun m => m.1 = key

/-- `members[key]` -/
def field (members : List (Text × Value)) (key : String) : Value :=
  ((members.find? fun m => m.1 = Text.ofString key).map Prod.snd).getD .null

/-- `_decimal` -/
def decimal (value : Value) (name : String) : Checked Nat :=
  match value with
  | .str digits =>
      if digits = [] ∨ digits.all Json.isDigit = false
          ∨ (1 < digits.length ∧ digits.head? = some 0x30) then
        fail (name ++ " must be a canonical decimal string")
      else if Py.maxStrDigits < digits.length then .error .tooManyDigits
      else .ok (JsonLoads.digitsValue digits)
  | _ => fail (name ++ " must be a canonical decimal string")

/-! ## Pocklington certificates -/

/-- A factor whose primality has been proved. -/
structure CheckedFactor where
  prime : Nat
  exponent : Nat
  witness : Nat

def plainFactorKeys : List Text := ["exponent", "prime", "witness"].map Text.ofString

def recursiveFactorKeys : List Text :=
  ["certificate", "exponent", "prime", "witness"].map Text.ofString

def certificateKeys : List Text := ["cofactor", "factors", "kind", "number"].map Text.ofString

/-- `_plain_int(exponent) and exponent > 0` -/
def positiveExponent : Value → Checked Nat
  | .int e => if e ≤ 0 then fail "factor exponent must be positive" else .ok e.toNat
  | _ => fail "factor exponent must be positive"

/-- A factor of 64 bits is tested, a larger one has its own certificate. -/
def provePrime (isPrime : Int → Bool) (check : Value → Nat → Bool)
    (members : List (Text × Value)) (prime : Nat) : Checked Unit :=
  let certified := members.any fun m => m.1 = Text.ofString "certificate"
  if prime ≤ MAX_UINT64 then
    refuseIf (certified = true ∨ isPrime prime = false)
      (.campaign "invalid directly checked Pocklington factor")
  else do
    refuseIf (certified = false) (.campaign "large factor lacks recursive certificate")
    refuseIf (check (field members "certificate") prime = false)
      (.campaign "recursive Pocklington certificate failed")

/-- `_prime_factor_proved` -/
def primeFactorProved (isPrime : Int → Bool) (check : Value → Nat → Bool) (factor : Value) :
    Checked CheckedFactor :=
  match factor with
  | .obj members => do
      refuseIf (hasKeys members plainFactorKeys = false
        ∧ hasKeys members recursiveFactorKeys = false) (.campaign "invalid Pocklington factor entry")
      let prime ← decimal (field members "prime") "factor.prime"
      let witness ← decimal (field members "witness") "factor.witness"
      let exponent ← positiveExponent (field members "exponent")
      provePrime isPrime check members prime
      pure { prime := prime, exponent := exponent, witness := witness }
  | _ => fail "invalid Pocklington factor entry"

/-- The loop over the factors; `none` when the primes do not increase. -/
def checkFactors (prove : Value → Checked CheckedFactor) :
    Nat → Nat → List CheckedFactor → List Value → Checked (Option (Nat × List CheckedFactor))
  | known, _, checked, [] => .ok (some (known, checked))
  | known, previous, checked, factor :: rest => do
      let f ← prove factor
      if f.prime ≤ previous then pure none
      else checkFactors prove (known * f.prime ^ f.exponent) f.prime (checked ++ [f]) rest

/-- The conditions of the second loop on one factor. -/
def witnessHolds (number : Nat) (f : CheckedFactor) : Bool :=
  (1 < f.witness && f.witness < number) && powMod f.witness (number - 1) number = 1
    && Int.gcd ((powMod f.witness ((number - 1) / f.prime) number : Int) - 1) number = 1

/-- The checks on the factors of one certificate. -/
def factorsHold (prove : Value → Checked CheckedFactor) (number cofactor : Nat)
    (factors : List Value) : Checked Bool := do
  match ← checkFactors prove 1 1 [] factors with
  | none => pure false
  | some (known, checked) =>
      if checked.isEmpty = true ∨ known * cofactor ≠ number - 1 ∨ known * known ≤ number then
        pure false
      else pure (checked.all (witnessHolds number))

/-- The body of `check_pocklington_object` at one depth, before its `except` clause. -/
def certificateHolds (isPrime : Int → Bool) (check : Value → Nat → Bool) (root : Value)
    (expected : Option Nat) : Checked Bool :=
  match root with
  | .obj members =>
      if hasKeys members certificateKeys = false then pure false
      else
        match field members "kind", field members "factors" with
        | .str kind, .arr factors =>
            if kind ≠ POCKLINGTON_KIND then pure false
            else do
              let number ← decimal (field members "number") "number"
              let cofactor ← decimal (field members "cofactor") "cofactor"
              if expected ≠ none ∧ expected ≠ some number then pure false
              else if number ≤ MAX_UINT64 then pure false
              else if number ≤ 2 ∨ number % 2 = 0 ∨ cofactor = 0 then pure false
              else factorsHold (primeFactorProved isPrime check) number cofactor factors
        | _, _ => pure false
  | _ => pure false

/-- `check_pocklington_object` with `fuel` levels left: the depth is `33 - fuel`. -/
def checkAtDepth (isPrime : Int → Bool) : Nat → Value → Option Nat → Bool
  | 0, _, _ => false
  | fuel + 1, root, expected =>
      match certificateHolds isPrime (fun c p => checkAtDepth isPrime fuel c (some p)) root
          expected with
      | .ok holds => holds
      | .error _ => false

/-- `check_pocklington_object` -/
def checkPocklingtonObject (isPrime : Int → Bool) (root : Value) (expected : Option Nat)
    (depth : Nat) : Bool :=
  checkAtDepth isPrime (33 - depth) root expected

/-! ## Proth certificates -/

def SOURCE_PROTH_WITNESSES : List Int := [2, 3, 5, 7, 11, 13, 17, 19, 23, 29]

/-- `jacobi_symbol(witness, number) == -1` -/
def jacobiIsMinusOne (witness number : Int) : Checked Bool :=
  match jacobiSymbol witness number with
  | .ok symbol => .ok (symbol = -1)
  | .error e => .error (.jacobi e)

/-- `pow(witness, (number - 1) // 2, number) == number - 1` -/
def halfPowerIsMinusOne (witness number : Int) : Bool :=
  (powMod witness.toNat ((number - 1) / 2).toNat number.toNat : Int) = number - 1

/-- `check_proth` -/
def checkProth (number witness prothExponent : Int) : Checked Bool :=
  if ¬ (1 ≤ prothExponent ∧ prothExponent ≤ 63) then .ok false
  else if witness ∉ SOURCE_PROTH_WITNESSES ∨ number ≤ 2 then .ok false
  else
    let prothPower : Int := 2 ^ prothExponent.toNat
    let quotient := (number - 1) / prothPower
    let remainder := (number - 1) % prothPower
    if remainder ≠ 0 ∨ quotient ≤ 0 ∨ prothPower ≤ quotient then .ok false
    else do
      let negative ← jacobiIsMinusOne witness number
      if negative = false then pure false else pure (halfPowerIsMinusOne witness number)

/-! ## Soundness of Pocklington certificates -/

/-- What the second loop has checked is what Pocklington's criterion asks of a factor. -/
theorem witnesses_of_holds {number : Nat} {f : CheckedFactor} (hn : 1 < number)
    (h : witnessHolds number f = true) : Witnesses number f.prime f.witness := by
  unfold witnessHolds at h
  simp only [Bool.and_eq_true, decide_eq_true_eq, powMod_eq] at h
  obtain ⟨⟨-, hone⟩, hgcd⟩ := h
  refine ⟨?_, ?_⟩
  · have : (f.witness ^ (number - 1) : Nat) ≡ 1 [MOD number] := by
      rw [Nat.ModEq, hone, Nat.mod_eq_of_lt hn]
    exact_mod_cast (Int.natCast_modEq_iff.mpr this)
  · rw [Int.natCast_emod, ← Int.gcd_emod, Int.emod_sub_emod, Int.gcd_emod] at hgcd
    exact_mod_cast hgcd

/-- The loop only adds to the checked factors. -/
theorem checkFactors_mem {prove : Value → Checked CheckedFactor} {factors : List Value}
    {known previous product : Nat} {checked result : List CheckedFactor} {f : CheckedFactor}
    (h : checkFactors prove known previous checked factors = .ok (some (product, result)))
    (hf : f ∈ checked) : f ∈ result := by
  induction factors generalizing known previous checked with
  | nil =>
      simp only [checkFactors, Except.ok.injEq, Option.some.injEq, Prod.mk.injEq] at h
      exact h.2 ▸ hf
  | cons factor rest ih =>
      simp only [checkFactors, bind_ok] at h
      obtain ⟨g, _, h⟩ := h
      split at h
      · exact absurd h (by simp)
      · exact ih h (List.mem_append_left _ hf)

/-- **The product of the factors has no other primes than theirs.** -/
theorem checkFactors_ok {prove : Value → Checked CheckedFactor}
    (hprove : ∀ v f, prove v = .ok f → f.prime.Prime) {factors : List Value}
    {known previous product : Nat} {checked result : List CheckedFactor}
    (h : checkFactors prove known previous checked factors = .ok (some (product, result)))
    {q : Nat} (hq : q.Prime) (hdvd : q ∣ product) : q ∣ known ∨ ∃ f ∈ result, f.prime = q := by
  induction factors generalizing known previous checked with
  | nil =>
      simp only [checkFactors, Except.ok.injEq, Option.some.injEq, Prod.mk.injEq] at h
      exact .inl (h.1 ▸ hdvd)
  | cons factor rest ih =>
      simp only [checkFactors, bind_ok] at h
      obtain ⟨f, hf, h⟩ := h
      split at h
      · exact absurd h (by simp)
      rcases ih h with hknown | hlater
      · rcases hq.dvd_mul.mp hknown with hknown | hpow
        · exact .inl hknown
        · have hqf := (Nat.prime_dvd_prime_iff_eq hq (hprove _ _ hf)).mp (hq.dvd_of_dvd_pow hpow)
          exact .inr ⟨f, checkFactors_mem h (by simp), hqf.symm⟩
      · exact .inr hlater

/-- Factors that hold make the number prime. -/
theorem prime_of_factorsHold {prove : Value → Checked CheckedFactor}
    (hprove : ∀ v f, prove v = .ok f → f.prime.Prime) {number cofactor : Nat}
    {factors : List Value} (hn : 1 < number)
    (h : factorsHold prove number cofactor factors = .ok true) : number.Prime := by
  unfold factorsHold at h
  obtain ⟨found, hloop, h⟩ := bind_ok.mp h
  cases found with
  | none => exact absurd h (by simp)
  | some found =>
      obtain ⟨known, checked⟩ := found
      dsimp only at h
      split at h
      · exact absurd h (by simp)
      rename_i hgood
      obtain ⟨-, hproduct, hsize⟩ : ¬ checked.isEmpty = true ∧ known * cofactor = number - 1
          ∧ number < known * known := by
        rw [not_or, not_or, not_not, not_le] at hgood
        exact hgood
      have hall := List.all_eq_true.mp (pure_ok.mp h)
      refine PrimalityCriteria.prime_of_pocklington hn ⟨cofactor, hproduct.symm⟩ hsize ?_
      intro q hq hdvd
      rcases checkFactors_ok hprove hloop hq hdvd with h1 | ⟨f, hf, rfl⟩
      · exact absurd (Nat.dvd_one.mp h1) hq.one_lt.ne'
      · exact ⟨f.witness, witnesses_of_holds hn (hall f hf)⟩

/-- The bounded test is right on the range it accepts. -/
def BoundedTestSound (isPrime : Int → Bool) : Prop :=
  ∀ p : Nat, p ≤ MAX_UINT64 → isPrime p = true → p.Prime

/-- A certificate checker is right. -/
def CheckerSound (check : Value → Nat → Bool) : Prop := ∀ v p, check v p = true → p.Prime

theorem primeFactorProved_prime {isPrime : Int → Bool} {check : Value → Nat → Bool}
    (hbounded : BoundedTestSound isPrime) (hcheck : CheckerSound check) {factor : Value}
    {f : CheckedFactor} (h : primeFactorProved isPrime check factor = .ok f) : f.prime.Prime := by
  unfold primeFactorProved at h
  split at h
  · simp only [bind_ok, pure_ok] at h
    obtain ⟨_, _, prime, _, witness, _, exponent, _, _, hprove, rfl⟩ := h
    unfold provePrime at hprove
    dsimp only at hprove ⊢
    split at hprove
    · rename_i hsmall
      rw [refuseIf_ok, not_or, Bool.not_eq_false] at hprove
      exact hbounded prime hsmall hprove.2
    · simp only [bind_ok, refuseIf_ok, Bool.not_eq_false] at hprove
      obtain ⟨_, _, hrec⟩ := hprove
      exact hcheck _ prime hrec
  · exact absurd h (by simp [fail])

/-- The number a certificate is about. -/
def certifiedNumber : Value → Option Nat
  | .obj members => (decimal (field members "number") "number").toOption
  | _ => none

theorem certificateHolds_prime {isPrime : Int → Bool} {check : Value → Nat → Bool}
    (hbounded : BoundedTestSound isPrime) (hcheck : CheckerSound check) {root : Value}
    {expected : Option Nat} (h : certificateHolds isPrime check root expected = .ok true) :
    ∃ number, certifiedNumber root = some number ∧ number.Prime
      ∧ ∀ e, expected = some e → e = number := by
  unfold certificateHolds at h
  split at h
  · rename_i members
    split at h
    · exact absurd h (by simp)
    split at h
    · split at h
      · exact absurd h (by simp)
      simp only [bind_ok] at h
      obtain ⟨number, hnumber, cofactor, _, h⟩ := h
      split at h
      · exact absurd h (by simp)
      rename_i hexpected
      split at h
      · exact absurd h (by simp)
      rename_i hlarge
      split at h
      · exact absurd h (by simp)
      rename_i hshape
      have hn : 1 < number := by omega
      refine ⟨number, ?_, ?_, ?_⟩
      · rw [certifiedNumber, hnumber]
        rfl
      · exact prime_of_factorsHold (fun v f => primeFactorProved_prime hbounded hcheck) hn h
      · rintro e rfl
        by_contra hne
        exact hexpected ⟨by simp, by simpa using hne⟩
    · exact absurd h (by simp)
  · exact absurd h (by simp)

/-- **Every depth of the recursion is sound**, by induction on the levels left. -/
theorem checkAtDepth_sound {isPrime : Int → Bool} (hbounded : BoundedTestSound isPrime) {fuel : Nat}
    {root : Value} {expected : Option Nat} (h : checkAtDepth isPrime fuel root expected = true) :
    ∃ number, certifiedNumber root = some number ∧ number.Prime
      ∧ ∀ e, expected = some e → e = number := by
  induction fuel generalizing root expected with
  | zero => exact absurd h (by simp [checkAtDepth])
  | succ fuel ih =>
      unfold checkAtDepth at h
      split at h
      · rename_i holds hholds
        subst h
        refine certificateHolds_prime hbounded ?_ hholds
        intro c p hc
        obtain ⟨number, -, hprime, hexpected⟩ := ih hc
        exact hexpected p rfl ▸ hprime
      · exact absurd h (by simp)

/-! ## Soundness of Proth certificates -/

theorem jacobiIsMinusOne_ok {witness : Int} {n : Nat} {negative : Bool} (hn : n % 2 = 1)
    (h : jacobiIsMinusOne witness n = .ok negative) :
    negative = decide (jacobiSym witness n = -1) := by
  unfold jacobiIsMinusOne at h
  rw [jacobiSymbol_eq witness hn] at h
  exact (Except.ok.inj h).symm

/-- The power condition as a congruence. -/
theorem halfPowerIsMinusOne_iff {witness n : Nat} (hn : 1 < n) :
    halfPowerIsMinusOne witness n = true ↔ (witness : ℤ) ^ ((n - 1) / 2) ≡ -1 [ZMOD n] := by
  have hhalf : (((n : Int) - 1) / 2).toNat = (n - 1) / 2 := by omega
  have hmod : (-1 : ℤ) % n = n - 1 := by
    rw [← Int.add_emod_right, Int.emod_eq_of_lt (by omega) (by omega)]
    ring
  unfold halfPowerIsMinusOne
  rw [decide_eq_true_iff, powMod_eq, hhalf, Int.toNat_natCast, Int.toNat_natCast, Int.ModEq, hmod]
  push_cast
  rfl

/-- The shape of a number that `check_proth` accepts. -/
def ProthShape (number prothExponent : Int) : Prop :=
  ∃ e k : Nat, prothExponent = e ∧ 0 < e ∧ 0 < k ∧ k < 2 ^ e ∧ number = (k * 2 ^ e + 1 : Nat)

/-- The quotient and the remainder of `check_proth`. -/
theorem prothShape_iff {number : Int} {e : Nat} (he : 0 < e) :
    ProthShape number e ↔ ¬ ((number - 1) % 2 ^ e ≠ 0 ∨ (number - 1) / 2 ^ e ≤ 0
      ∨ 2 ^ e ≤ (number - 1) / 2 ^ e) := by
  have hpos : (0 : Int) < 2 ^ e := by positivity
  rw [not_or, not_or, not_not, not_le, not_le]
  constructor
  · rintro ⟨e', k, he', -, hk, hsize, rfl⟩
    obtain rfl : e = e' := by exact_mod_cast he'
    have hpred : ((k * 2 ^ e + 1 : Nat) : Int) - 1 = k * 2 ^ e := by
      push_cast
      ring
    rw [hpred, Int.mul_emod_left, Int.mul_ediv_cancel _ hpos.ne']
    exact ⟨rfl, by exact_mod_cast hk, by exact_mod_cast hsize⟩
  · rintro ⟨hrem, hk, hsize⟩
    obtain ⟨k, hquot⟩ := Int.eq_ofNat_of_zero_le hk.le
    rw [hquot] at hk hsize
    refine ⟨e, k, rfl, he, by exact_mod_cast hk, by exact_mod_cast hsize, ?_⟩
    have hsplit := Int.emod_add_mul_ediv (number - 1) (2 ^ e)
    rw [hrem, hquot, zero_add, mul_comm] at hsplit
    push_cast
    exact (Int.sub_eq_iff_eq_add.mp hsplit.symm)

/-- **What `check_proth` accepts.** -/
theorem checkProth_ok {number witness prothExponent : Int} :
    checkProth number witness prothExponent = .ok true
      ↔ (1 ≤ prothExponent ∧ prothExponent ≤ 63) ∧ witness ∈ SOURCE_PROTH_WITNESSES
        ∧ ProthShape number prothExponent ∧ jacobiSym witness number.toNat = -1
        ∧ halfPowerIsMinusOne witness number = true := by
  unfold checkProth
  split
  · rename_i he
    simp [he]
  rename_i he
  rw [not_not] at he
  obtain ⟨e, rfl⟩ := Int.eq_ofNat_of_zero_le (show 0 ≤ prothExponent by omega)
  have he0 : 0 < e := by omega
  split
  · rename_i hbad
    constructor
    · intro h
      exact absurd h (by simp)
    · rintro ⟨-, hw, ⟨e', k, -, he', hk, -, rfl⟩, -⟩
      rcases hbad with hbad | hbad
      · exact absurd hw hbad
      · have := Nat.mul_le_mul hk (Nat.one_lt_two_pow he'.ne')
        omega
  rename_i hgood
  rw [not_or, not_not, not_le] at hgood
  dsimp only
  rw [Int.toNat_natCast]
  split
  · rename_i hshape
    constructor
    · intro h
      exact absurd h (by simp)
    · rintro ⟨-, -, h, -⟩
      exact absurd hshape ((prothShape_iff he0).mp h)
  rename_i hshape
  have hshape := (prothShape_iff he0).mpr hshape
  -- the number is odd, so the Jacobi symbol is defined
  obtain ⟨n, rfl⟩ := Int.eq_ofNat_of_zero_le (show 0 ≤ number by omega)
  have hodd : n % 2 = 1 := by
    obtain ⟨e', k, -, he', -, -, hn⟩ := hshape
    have := (dvd_pow_self 2 he'.ne').mul_left k
    omega
  unfold jacobiIsMinusOne
  rw [jacobiSymbol_eq witness hodd, Int.toNat_natCast]
  by_cases hj : jacobiSym witness n = -1
  · simp [hj, hgood, hshape, he, bind, Except.bind]
  · simp [hj, bind, Except.bind]

/-- A number that `check_proth` accepts is a prime. -/
theorem checkProth_prime {number witness prothExponent : Int}
    (h : checkProth number witness prothExponent = .ok true) :
    ∃ n : Nat, number = n ∧ n.Prime := by
  obtain ⟨-, hw, ⟨e, k, -, he, hk, hsize, rfl⟩, -, hpow⟩ := checkProth_ok.mp h
  refine ⟨k * 2 ^ e + 1, rfl, ?_⟩
  have hone : 1 < k * 2 ^ e + 1 := by
    have := Nat.mul_pos hk (Nat.two_pow_pos e)
    omega
  have hnonneg : 0 ≤ witness := by
    have hall : ∀ w ∈ SOURCE_PROTH_WITNESSES, 0 ≤ w := by decide
    exact hall witness hw
  obtain ⟨w, rfl⟩ := Int.eq_ofNat_of_zero_le hnonneg
  exact PrimalityCriteria.prime_of_proth he hk hsize rfl ((halfPowerIsMinusOne_iff hone).mp hpow)

/--
**Primality certificates are sound.** If the bounded test of the small factors is right on
its range, then the number of every accepted Pocklington certificate is prime, and equal to
the expected number if one was given; so is every number the Proth checker accepts.
-/
theorem certificates_sound {isPrime : Int → Bool} (hbounded : BoundedTestSound isPrime) :
    (∀ root expected depth, checkPocklingtonObject isPrime root expected depth = true →
      ∃ number, certifiedNumber root = some number ∧ number.Prime
        ∧ ∀ e, expected = some e → e = number)
    ∧ ∀ number witness prothExponent, checkProth number witness prothExponent = .ok true →
      ∃ n : Nat, number = n ∧ n.Prime :=
  ⟨fun _ _ _ h => checkAtDepth_sound hbounded h, fun _ _ _ h => checkProth_prime h⟩

/-- A certificate whose factored part is `2 ^ 40`. -/
def powerOfTwoCertificate : Value := .obj [
  (Text.ofString "cofactor", .str (Text.ofString "33554478")),
  (Text.ofString "factors", .arr [.obj [
    (Text.ofString "exponent", .int 40),
    (Text.ofString "prime", .str (Text.ofString "2")),
    (Text.ofString "witness", .str (Text.ofString "7"))]]),
  (Text.ofString "kind", .str POCKLINGTON_KIND),
  (Text.ofString "number", .str (Text.ofString "36893538724953980929"))]

theorem certificates_sound_witness :
    Nat.Prime 36893538724953980929 ∧ Nat.Prime (35 * 2 ^ 45 + 1) := by
  have hsound := @certificates_sound (fun p => p.toNat ≤ MAX_UINT64 ∧ p.toNat.Prime)
    fun p _ h => (of_decide_eq_true h).2
  constructor
  · obtain ⟨n, hn, hprime, -⟩ := hsound.1 powerOfTwoCertificate none 0 (by decide +kernel)
    have heq : certifiedNumber powerOfTwoCertificate = some 36893538724953980929 := by
      decide +kernel
    rw [heq] at hn
    exact Option.some.inj hn ▸ hprime
  · obtain ⟨n, hn, hprime⟩ := hsound.2 (35 * 2 ^ 45 + 1) 3 45 (by decide +kernel)
    have heq : n = 35 * 2 ^ 45 + 1 := by exact_mod_cast hn.symm
    exact heq ▸ hprime

end AttestedCompute.PrimeLadder
