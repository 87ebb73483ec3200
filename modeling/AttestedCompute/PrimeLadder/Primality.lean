import AttestedCompute.Lib.PrimalityCriteria

/-!
# Bounded primality and the Jacobi symbol

`is_prime_bounded` and `jacobi_symbol` of `tg_verifier/goldbach.py`. The loop of the
Jacobi symbol keeps the product of the sign collected so far and the symbol of the
current pair, by quadratic reciprocity.
-/

namespace AttestedCompute.PrimeLadder

open PrimalityCriteria (powMod)

def MAX_DETERMINISTIC_PRIME_INPUT : Int := 2 ^ 64 - 1

def MILLER_RABIN_BASES_64 : List Nat := [2, 325, 9375, 28178, 450775, 9780504, 1795265022]

def SMALL_PRIMES : List Nat := [2, 3, 5, 7, 11, 13, 17, 19, 23, 29, 31, 37]

/-- The loop over the small primes; `none` when it decides nothing. -/
def smallPrimeDecision (value : Nat) : List Nat → Option Bool
  | [] => none
  | prime :: rest =>
      if value = prime then some true
      else if value % prime = 0 then some false
      else smallPrimeDecision value rest

/-- `while odd_part & 1 == 0` -/
def splitTwos : Nat → Nat → Nat → Nat × Nat
  | 0, oddPart, powerOfTwo => (oddPart, powerOfTwo)
  | fuel + 1, oddPart, powerOfTwo =>
      if oddPart % 2 = 0 then splitTwos fuel (oddPart / 2) (powerOfTwo + 1)
      else (oddPart, powerOfTwo)

/-- The squarings of one base: does one of them reach `value - 1`? -/
def reachesMinusOne (value : Nat) : Nat → Nat → Bool
  | 0, _ => false
  | rounds + 1, residue =>
      let residue := residue * residue % value
      if residue = value - 1 then true else reachesMinusOne value rounds residue

/-- One Miller–Rabin base. -/
def passesBase (value oddPart powerOfTwo base : Nat) : Bool :=
  let base := base % value
  if base = 0 then true
  else
    let residue := powMod base oddPart value
    if residue = 1 ∨ residue = value - 1 then true
    else reachesMinusOne value (powerOfTwo - 1) residue

/-- `is_prime_bounded` -/
def isPrimeBounded (value : Int) : Bool :=
  if value < 2 ∨ MAX_DETERMINISTIC_PRIME_INPUT < value then false
  else
    let value := value.toNat
    match smallPrimeDecision value SMALL_PRIMES with
    | some decision => decision
    | none =>
        let (oddPart, powerOfTwo) := splitTwos value (value - 1) 0
        MILLER_RABIN_BASES_64.all (passesBase value oddPart powerOfTwo)

/-! ## The Jacobi symbol -/

/-- `while numerator % 2 == 0`, with the sign it collects. -/
def stripTwos (denominator : Nat) : Nat → Nat → Int → Nat × Int
  | 0, numerator, result => (numerator, result)
  | fuel + 1, numerator, result =>
      if numerator % 2 = 0 then
        stripTwos denominator fuel (numerator / 2)
          (if denominator % 8 = 3 ∨ denominator % 8 = 5 then -result else result)
      else (numerator, result)

/-- The loop: strip the twos, swap, and reduce. -/
def jacobiLoop : Nat → Nat → Nat → Int → Int
  | 0, _, _, result => result
  | fuel + 1, numerator, denominator, result =>
      if numerator = 0 then if denominator = 1 then result else 0
      else
        let (stripped, result) := stripTwos denominator numerator numerator result
        let result := if denominator % 4 = 3 ∧ stripped % 4 = 3 then -result else result
        jacobiLoop fuel (denominator % stripped) stripped result

/-- `denominator must be a positive odd integer` -/
inductive JacobiError where
  | denominator
  deriving DecidableEq, Repr

/-- `jacobi_symbol` -/
def jacobiSymbol (numerator denominator : Int) : Except JacobiError Int :=
  if denominator ≤ 0 ∨ denominator % 2 = 0 then .error .denominator
  else
    let modulus := denominator.toNat
    .ok (jacobiLoop (modulus + 1) (numerator % denominator).toNat modulus 1)

/-- Stripping the twos leaves an odd number and the product unchanged. -/
theorem stripTwos_spec {d : Nat} (hd : d % 2 = 1) {fuel n : Nat} {r : Int} (hn : 0 < n)
    (hfuel : n ≤ fuel) :
    (stripTwos d fuel n r).1 % 2 = 1 ∧ (stripTwos d fuel n r).1 ≤ n
      ∧ (stripTwos d fuel n r).2 * jacobiSym (stripTwos d fuel n r).1 d = r * jacobiSym n d := by
  induction fuel generalizing n r with
  | zero => omega
  | succ fuel ih =>
      unfold stripTwos
      split
      · rename_i heven
        obtain ⟨hodd, hle, hprod⟩ := @ih (n / 2)
          (if d % 8 = 3 ∨ d % 8 = 5 then -r else r) (by omega) (by omega)
        refine ⟨hodd, by omega, hprod.trans ?_⟩
        have hhalf := @jacobiSym.even_odd n d (by exact_mod_cast heven) hd
        have hcast : ((n / 2 : Nat) : ℤ) = (n : ℤ) / 2 := by norm_cast
        rw [← hhalf, hcast]
        split
        · rw [neg_mul, mul_neg]
        · rfl
      · rename_i hodd
        exact ⟨by omega, le_rfl, rfl⟩

/-- **The loop keeps the sign times the symbol.** -/
theorem jacobiLoop_eq {fuel n d : Nat} {r : Int} (hd : d % 2 = 1) (hfuel : d < fuel)
    (hn : n < d) : jacobiLoop fuel n d r = r * jacobiSym n d := by
  induction fuel generalizing n d r with
  | zero => omega
  | succ fuel ih =>
      unfold jacobiLoop
      split
      · rename_i h0
        subst h0
        split
        · rename_i h1
          rw [h1, jacobiSym.one_right, mul_one]
        · rw [Nat.cast_zero, jacobiSym.zero_left (by omega), mul_zero]
      rename_i h0
      obtain ⟨hodd, hle, hprod⟩ := @stripTwos_spec d hd n n r (by omega) le_rfl
      generalize stripTwos d n n r = stripped at hodd hle hprod
      obtain ⟨a, s⟩ := stripped
      dsimp only at hodd hle hprod ⊢
      rw [ih hodd (by omega) (Nat.mod_lt _ (by omega)), ← hprod]
      have hmod : jacobiSym ((d % a : Nat) : ℤ) a = jacobiSym d a := by
        rw [Int.natCast_emod, ← jacobiSym.mod_left]
      have hswap := jacobiSym.quadratic_reciprocity_if hodd hd
      rw [hmod, ← hswap]
      by_cases h3 : a % 4 = 3 ∧ d % 4 = 3
      · rw [if_pos h3, if_pos h3.symm, neg_mul, mul_neg]
      · rw [if_neg h3, if_neg fun h => h3 h.symm]

/-- **`jacobi_symbol` is the Jacobi symbol.** -/
theorem jacobiSymbol_eq (a : Int) {n : Nat} (hn : n % 2 = 1) :
    jacobiSymbol a n = .ok (jacobiSym a n) := by
  have hpos : (0 : Int) < n := by omega
  unfold jacobiSymbol
  rw [if_neg (by omega)]
  dsimp only
  rw [Int.toNat_natCast]
  have hlt := Int.emod_lt_of_pos a hpos
  have hnonneg := Int.emod_nonneg a hpos.ne'
  rw [jacobiLoop_eq hn (by omega) (by omega), one_mul, Int.toNat_of_nonneg hnonneg,
    ← jacobiSym.mod_left]

end AttestedCompute.PrimeLadder
