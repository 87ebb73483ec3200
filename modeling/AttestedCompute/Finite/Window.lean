import AttestedCompute.Finite.RamareG
import AttestedCompute.Finite.Scheduler

/-!
# The windows of Proposition 12.2.4

A window lists, for one modulus, every `k` that lies between two real numbers of which only rational
enclosures are known. The list covers the widest range the enclosures allow, so it covers the true
one, whatever the real numbers are.
-/

namespace AttestedCompute.Finite

open Fallible

/-- One structurally checked k row. -/
structure Prop1224Pair where
  k : Int
  gNumerator : Int
  gDenominator : Int
  marginLowerNumerator : Int
  marginLowerDenominator : Int

def Prop1224Pair.body (pair : Prop1224Pair) : Json :=
  .arr ([pair.k, pair.gNumerator, pair.gDenominator, pair.marginLowerNumerator,
    pair.marginLowerDenominator].map .int)

/-- A conservative k-window for one admissible q. -/
structure Prop1224Window where
  q : Int
  varpiLowerNumerator : Int
  varpiLowerDenominator : Int
  varpiUpperNumerator : Int
  varpiUpperDenominator : Int
  lambdaLowerNumerator : Int
  lambdaLowerDenominator : Int
  lambdaUpperNumerator : Int
  lambdaUpperDenominator : Int
  pairs : List Prop1224Pair

def Prop1224Window.body (window : Prop1224Window) : Json :=
  Json.object [
    ("lambda", .arr ([window.lambdaLowerNumerator, window.lambdaLowerDenominator,
      window.lambdaUpperNumerator, window.lambdaUpperDenominator].map .int)),
    ("pairs", .arr (window.pairs.map Prop1224Pair.body)),
    ("q", .int window.q),
    ("varpi", .arr ([window.varpiLowerNumerator, window.varpiLowerDenominator,
      window.varpiUpperNumerator, window.varpiUpperDenominator].map .int))]

/-- The two enclosures of a window. -/
structure WindowBounds where
  varpiLower : ℚ
  varpiUpper : ℚ
  lambdaLower : ℚ
  lambdaUpper : ℚ

/-- `_window_bounds` -/
def windowBounds (window : Prop1224Window) : Checked WindowBounds := do
  let varpiLower ← fraction "varpi_lower" window.varpiLowerNumerator window.varpiLowerDenominator
  let varpiUpper ← fraction "varpi_upper" window.varpiUpperNumerator window.varpiUpperDenominator
  let lambdaLower ←
    fraction "lambda_lower" window.lambdaLowerNumerator window.lambdaLowerDenominator
  let lambdaUpper ←
    fraction "lambda_upper" window.lambdaUpperNumerator window.lambdaUpperDenominator
  failIf (min varpiLower lambdaLower < 0) "Proposition 12.2.4 window endpoints must be nonnegative"
  failIf (varpiUpper < varpiLower) "varpi enclosure is reversed"
  failIf (lambdaUpper < lambdaLower) "lambda enclosure is reversed"
  pure ⟨varpiLower, varpiUpper, lambdaLower, lambdaUpper⟩

/-- `tuple(range(first, last + 1))` -/
def integersThrough (first last : Int) : List Int :=
  (List.range (last - first + 1).toNat).map fun i : Nat => first + (i : Int)

/-- Return a superset of all k in any represented true source window. -/
def prop1224ConservativeKs (window : Prop1224Window) : Checked (List Int) := do
  let bounds ← windowBounds window
  let first := max 1 (ceil bounds.varpiLower)
  let last := ceil bounds.lambdaUpper - 1
  if last < first then pure []
  else do
    let count := last - first + 1
    failIf (MAX_HASHED_ROWS < count) ("conservative k window exceeds the local row safety limit; "
      ++ "split or tighten the outward enclosure before materializing it")
    pure (integersThrough first last)

/-- The beginning of the messages about a modulus. -/
def aboutQ (q : Int) : String := "q=" ++ toString q

/-- The first loop over the pairs. -/
def checkPairKeys (q : Int) : Nat → List Prop1224Pair → Checked Unit
  | _, [] => .ok ()
  | index, pair :: rest => do
      checkInt (aboutQ q ++ " pair " ++ toString index ++ ".k") pair.k 1
      checkPairKeys q (index + 1) rest

/-- `exact_g[pair.k]` compared with the stated value. -/
def checkGValue (about : String) (exactG : List (Int × ℚ)) (k : Int) (gValue : ℚ) : Checked Unit :=
  match exactG.lookup k with
  | none => .error (.keyError k)
  | some exact => failIf (gValue ≠ exact) (about ++ " has an incorrect exact G_q(k)")

/-- One turn of the second loop over the pairs. -/
def checkPair (q : Int) (exactG : List (Int × ℚ)) (pair : Prop1224Pair) : Checked Unit := do
  let about := aboutQ q ++ ", k=" ++ toString pair.k
  let gValue ← fraction "G_q(k)" pair.gNumerator pair.gDenominator
  checkGValue about exactG pair.k gValue
  let margin ← fraction "margin_lower" pair.marginLowerNumerator pair.marginLowerDenominator
  failIf (margin < 0) (about ++ " has a negative supplied margin lower bound")

/-- Check q, conservative k coverage, exact G_q, and margin signs. -/
def verifyProp1224Window (window : Prop1224Window) : Checked Nat := do
  let q := window.q
  checkInt "window.q" q 1
  let admissible ← prop1224QIsAdmissible q
  refuseIf (admissible = false) (printing q (aboutQ q ++ " is not admissible"))
  checkPairKeys q 0 window.pairs
  let expectedKs ← prop1224ConservativeKs window
  failIf (window.pairs.map Prop1224Pair.k ≠ expectedKs)
    (aboutQ q ++ " does not cover its complete conservative k window")
  let exactG ← ramareGPrefixes q expectedKs
  window.pairs.forM (checkPair q exactG)
  pure expectedKs.length

/-! ## What an accepted window says -/

theorem fraction_ok {name : String} {n d : Int} {value : ℚ} (h : fraction name n d = .ok value) :
    value = n / d := by
  simp only [fraction, bind_ok, pure_ok] at h
  obtain ⟨_, _, _, _, rfl⟩ := h
  exact Rat.divInt_eq_div n d

theorem mem_integersThrough {first last k : Int} :
    k ∈ integersThrough first last ↔ first ≤ k ∧ k ≤ last := by
  rw [integersThrough, List.mem_map]
  constructor
  · intro h
    obtain ⟨i, hi, rfl⟩ := h
    have := List.mem_range.mp hi
    omega
  · intro h
    exact ⟨(k - first).toNat, List.mem_range.mpr (by omega), by omega⟩

/-- The two enclosures, as the window states them. -/
def Prop1224Window.varpiLower (window : Prop1224Window) : ℚ :=
  window.varpiLowerNumerator / window.varpiLowerDenominator

def Prop1224Window.varpiUpper (window : Prop1224Window) : ℚ :=
  window.varpiUpperNumerator / window.varpiUpperDenominator

def Prop1224Window.lambdaLower (window : Prop1224Window) : ℚ :=
  window.lambdaLowerNumerator / window.lambdaLowerDenominator

def Prop1224Window.lambdaUpper (window : Prop1224Window) : ℚ :=
  window.lambdaUpperNumerator / window.lambdaUpperDenominator

/-- **The listed range holds every integer of the true one.** -/
theorem conservativeKs_complete {window : Prop1224Window} {ks : List Int}
    (h : prop1224ConservativeKs window = .ok ks) {varpi lambda : ℝ}
    (hvarpi : (window.varpiLower : ℝ) ≤ varpi) (hlambda : lambda ≤ (window.lambdaUpper : ℝ))
    {k : Int} (hk : 1 ≤ k) (hlow : varpi ≤ k) (hhigh : (k : ℝ) < lambda) : k ∈ ks := by
  simp only [prop1224ConservativeKs, bind_ok] at h
  obtain ⟨bounds, hbounds, h⟩ := h
  simp only [windowBounds, bind_ok, pure_ok] at hbounds
  obtain ⟨varpiLower, hvl, _, _, _, _, lambdaUpper, hlu, _, _, _, _, _, _, rfl⟩ := hbounds
  dsimp only at h
  rw [fraction_ok hvl, fraction_ok hlu, ceil_eq, ceil_eq] at h
  have hfirst : ⌈window.varpiLower⌉ ≤ k := by
    rw [Int.ceil_le]
    exact_mod_cast hvarpi.trans hlow
  have hlast : k < ⌈window.lambdaUpper⌉ := by
    rw [Int.lt_ceil]
    exact_mod_cast hhigh.trans_le hlambda
  unfold Prop1224Window.varpiLower at hfirst
  unfold Prop1224Window.lambdaUpper at hlast
  split at h
  · rename_i hempty
    omega
  · simp only [bind_ok, pure_ok] at h
    obtain ⟨_, _, rfl⟩ := h
    exact mem_integersThrough.mpr (by omega)

/-- A pair says what the true value is and that its margin is not negative. -/
def Prop1224Pair.Exact (q : Int) (pair : Prop1224Pair) : Prop :=
  (pair.gNumerator / pair.gDenominator : ℚ) = ramareG q pair.k.toNat ∧
    0 ≤ (pair.marginLowerNumerator / pair.marginLowerDenominator : ℚ)

/-- **What an accepted window says.** -/
structure Covers (window : Prop1224Window) : Prop where
  admissible : Admissible window.q
  listed : ∀ varpi lambda : ℝ, (window.varpiLower : ℝ) ≤ varpi → varpi ≤ window.varpiUpper →
    (window.lambdaLower : ℝ) ≤ lambda → lambda ≤ window.lambdaUpper →
    ∀ k : Int, 1 ≤ k → varpi ≤ k → (k : ℝ) < lambda →
      ∃ pair ∈ window.pairs, pair.k = k ∧ pair.Exact window.q

theorem verifyWindow_covers {window : Prop1224Window} {rows : Nat}
    (h : verifyProp1224Window window = .ok rows) : Covers window := by
  simp only [verifyProp1224Window, bind_ok, refuseIf_ok, failIf_ok, pure_ok, not_not,
    Bool.not_eq_false] at h
  obtain ⟨_, _, admissible, hadmissible, _, rfl, _, hkeys, ks, hks, _, hpairs, exactG, hexact,
    _, hforM, _⟩ := h
  refine ⟨qIsAdmissible_ok.mp hadmissible, ?_⟩
  intro varpi lambda hvarpi _ _ hlambda k hk hlow hhigh
  have hmem := conservativeKs_complete hks hvarpi hlambda hk hlow hhigh
  have hmap := hmem
  rw [← hpairs, List.mem_map] at hmap
  obtain ⟨pair, hpair, hpk⟩ := hmap
  refine ⟨pair, hpair, hpk, ?_⟩
  have hcheck := forM_ok.mp hforM pair hpair
  simp only [checkPair, bind_ok] at hcheck
  obtain ⟨gValue, hg, _, hlookup, margin, hmargin, hsign⟩ := hcheck
  have hnat : ((k.toNat : Nat) : Int) = k := by omega
  have hvalue := ramareGPrefixes_lookup hexact (k := k.toNat) (by rw [hnat]; exact hmem)
  rw [hnat, ← hpk] at hvalue
  simp only [checkGValue, hvalue] at hlookup
  have hgEq := not_not.mp (failIf_ok.mp hlookup)
  have hmarginNonneg := not_lt.mp (failIf_ok.mp hsign)
  rw [fraction_ok hg] at hgEq
  rw [fraction_ok hmargin] at hmarginNonneg
  rw [hpk] at hgEq
  exact ⟨by rw [hpk]; exact hgEq, hmarginNonneg⟩

end AttestedCompute.Finite
