import AttestedCompute.Arithmetic.PiEnclosure
import AttestedCompute.Lib.Fallible

/-!
# Samples over a closed real interval

`check_little_mertens_sample` and `check_squarefree_sample` of
`tg_verifier/arithmetic.py`. Both step functions are constant between integers, so an
inequality over a real interval comes down to one inequality on every unit step. A
decreasing bound is decided by the right end of the step; a squared normalized error
is a convex function of the point and is decided by both ends.

Rational numbers are exact throughout, and π enters through its enclosure only.
-/

namespace AttestedCompute.Arithmetic

open Fallible (refuseIf refuseIf_ok bind_ok pure_ok)
open Finset (Icc)

/-- The failures of the two checks on integers and rationals. -/
inductive SampleError where
  | belowMinimum (name : String) (minimum : Int)
  | upperBelowLower
  | negativeBound
  | tableEnds (length through : Nat)
  | emptyTable
  | zeroEntry
  | coefficient (index : Nat) (value : Int)
  | reversed
  | noMinimum (what : String)
  deriving DecidableEq

def SampleError.message : SampleError → String
  | belowMinimum name minimum => name ++ " must be at least " ++ toString minimum
  | upperBelowLower => "upper must not be less than lower"
  | negativeBound => "bound must be nonnegative"
  | tableEnds length through =>
      "Möbius table ends at " ++ toString ((length : Int) - 1) ++ ", but index "
        ++ toString through ++ " is needed"
  | emptyTable => "Möbius table must contain mu(0)"
  | zeroEntry => "Möbius table must use mu(0) = 0"
  | coefficient index value =>
      "invalid Möbius coefficient mu(" ++ toString index ++ ")=" ++ toString value
  | reversed => "squarefree-density enclosure is reversed"
  | noMinimum what => "nonempty " ++ what ++ " range produced no minimum"

abbrev Sampled := Except SampleError

/-- `_require_int` with a lower bound. -/
def requireMinimum (name : String) (value minimum : Int) : Sampled Unit :=
  refuseIf (value < minimum) (.belowMinimum name minimum)

/-- `mu[index]` -/
def muAt (mu : List Int) (index : Nat) : Int := mu.getD index 0

/-- `_validate_mu_table` -/
def validateMuTable (mu : List Int) (through : Nat) : Sampled Unit := do
  refuseIf (mu.length ≤ through) (.tableEnds mu.length through)
  refuseIf (mu = []) .emptyTable
  refuseIf (muAt mu 0 ≠ 0) .zeroEntry
  match (List.range' 1 through).find? fun index => muAt mu index ∉ [-1, 0, 1] with
  | some index => .error (.coefficient index (muAt mu index))
  | none => .ok ()

/-- The checks both samples make first. -/
def checkRange (lower upper : Int) : Sampled Unit := do
  requireMinimum "lower" lower 1
  requireMinimum "upper" upper 1
  refuseIf (upper < lower) .upperBelowLower

/-- The smallest slack so far and where it was found. -/
def keepMinimum {α : Type} (minimum : Option (ℚ × α)) (slack : ℚ) (place : α) : Option (ℚ × α) :=
  match minimum with
  | none => some (slack, place)
  | some (least, found) => if slack < least then some (slack, place) else some (least, found)

/-! ## Little Mertens -/

/-- `LittleMertensBound` -/
inductive LittleMertensBound where
  | sqrtTwoOverX
  | oneOverTwoSqrtX
  deriving DecidableEq, Repr

/-- The squared slack of either bound. -/
def slackValue (s : ℚ) (rightEndpoint : Nat) : LittleMertensBound → ℚ
  | .sqrtTwoOverX => 2 - rightEndpoint * (s * s)
  | .oneOverTwoSqrtX => 1 - 4 * rightEndpoint * (s * s)

/-- `little_mertens_interval_slack` -/
def littleMertensIntervalSlack (s : ℚ) (rightEndpoint : Nat) (bound : LittleMertensBound) :
    Sampled ℚ := do
  requireMinimum "right_endpoint" rightEndpoint 1
  pure (slackValue s rightEndpoint bound)

/-- The local variables of the loop. -/
structure MertensScan where
  state : ℚ
  minimum : Option (ℚ × Nat × Nat)
  firstFailure : Option Nat

/-- `n + 1 if n < upper else n` -/
def rightEndpointOf (upper n : Nat) : Nat := if n < upper then n + 1 else n

/-- One iteration. -/
def mertensStep (mu : List Int) (lower upper : Nat) (bound : LittleMertensBound)
    (scan : MertensScan) (n : Nat) : Sampled MertensScan := do
  let state := scan.state + (muAt mu n : ℚ) / n
  if n < lower then pure { scan with state := state }
  else do
    let rightEndpoint := rightEndpointOf upper n
    let slack ← littleMertensIntervalSlack state rightEndpoint bound
    pure { state := state
           minimum := keepMinimum scan.minimum slack (n, rightEndpoint)
           firstFailure :=
             if slack < 0 ∧ scan.firstFailure = none then some n else scan.firstFailure }

structure LittleMertensSampleResult where
  bound : LittleMertensBound
  lower : Nat
  upper : Nat
  slabsChecked : Nat
  finalSum : ℚ
  minimumSlack : ℚ
  minimumSlackFloor : Nat
  minimumSlackRightEndpoint : Nat
  firstFailureFloor : Option Nat
  deriving DecidableEq

def LittleMertensSampleResult.passed (r : LittleMertensSampleResult) : Bool :=
  r.firstFailureFloor = none

/-- `check_little_mertens_sample` -/
def checkLittleMertensSample (mu : List Int) (lower upper : Int) (bound : LittleMertensBound) :
    Sampled LittleMertensSampleResult := do
  checkRange lower upper
  let lower := lower.toNat
  let upper := upper.toNat
  validateMuTable mu upper
  let scan ← (List.range' 1 upper).foldlM (mertensStep mu lower upper bound)
    { state := 0, minimum := none, firstFailure := none }
  match scan.minimum with
  | none => .error (.noMinimum "little-Mertens")
  | some (slack, floor, right) =>
      pure { bound := bound, lower := lower, upper := upper, slabsChecked := upper - lower + 1
             finalSum := scan.state, minimumSlack := slack, minimumSlackFloor := floor
             minimumSlackRightEndpoint := right, firstFailureFloor := scan.firstFailure }

/-! ## Squarefree density -/

/-- `squarefree_endpoint_slack_bounds`; the count is natural and `y` is checked. -/
def squarefreeEndpointSlackBounds (squarefreeCount y : Nat) (bound : ℚ) : Sampled (ℚ × ℚ) := do
  requireMinimum "y" y 1
  refuseIf (bound < 0) .negativeBound
  let differenceLower := squarefreeCount - SQUAREFREE_DENSITY_UPPER * y
  let differenceUpper := squarefreeCount - SQUAREFREE_DENSITY_LOWER * y
  refuseIf (differenceUpper < differenceLower) .reversed
  let absoluteLower :=
    if differenceLower ≤ 0 ∧ 0 ≤ differenceUpper then 0
    else min |differenceLower| |differenceUpper|
  let absoluteUpper := max |differenceLower| |differenceUpper|
  let rhsSquare := bound * bound * y
  pure (rhsSquare - absoluteUpper * absoluteUpper, rhsSquare - absoluteLower * absoluteLower)

inductive EndpointSide where
  | atInteger
  | leftLimit
  deriving DecidableEq, Repr

/-- The local variables of the loop. -/
structure SquarefreeScan where
  count : Nat
  checked : Nat
  safe : Nat
  violations : Nat
  unresolved : Nat
  firstProblem : Option (Nat × EndpointSide)
  minimum : Option (ℚ × Nat × EndpointSide)

/-- The first problem that was noted stays. -/
def noteProblem (firstProblem : Option (Nat × EndpointSide)) (place : Nat × EndpointSide) :
    Option (Nat × EndpointSide) :=
  if firstProblem = none then some place else firstProblem

/-- The inner loop on one endpoint. -/
def squarefreeEndpoint (bound : ℚ) (scan : SquarefreeScan) (place : Nat × EndpointSide) :
    Sampled SquarefreeScan := do
  let (slackLower, slackUpper) ← squarefreeEndpointSlackBounds scan.count place.1 bound
  let scan := { scan with checked := scan.checked + 1
                          minimum := keepMinimum scan.minimum slackLower place }
  if 0 ≤ slackLower then pure { scan with safe := scan.safe + 1 }
  else if slackUpper < 0 then
    pure { scan with violations := scan.violations + 1
                     firstProblem := noteProblem scan.firstProblem place }
  else
    pure { scan with unresolved := scan.unresolved + 1
                     firstProblem := noteProblem scan.firstProblem place }

def endpointsOf (upper n : Nat) : List (Nat × EndpointSide) :=
  if n < upper then [(n, .atInteger), (n + 1, .leftLimit)] else [(n, .atInteger)]

/-- One iteration of the outer loop. -/
def squarefreeStep (mu : List Int) (lower upper : Nat) (bound : ℚ) (scan : SquarefreeScan)
    (n : Nat) : Sampled SquarefreeScan :=
  let scan := { scan with count := if muAt mu n ≠ 0 then scan.count + 1 else scan.count }
  if n < lower then .ok scan else (endpointsOf upper n).foldlM (squarefreeEndpoint bound) scan

structure SquarefreeSampleResult where
  lower : Nat
  upper : Nat
  bound : ℚ
  finalSquarefreeCount : Nat
  endpointsChecked : Nat
  safeEndpoints : Nat
  violatingEndpoints : Nat
  unresolvedEndpoints : Nat
  minimumLowerSlack : ℚ
  minimumLowerSlackAt : Nat × EndpointSide
  firstProblem : Option (Nat × EndpointSide)
  deriving DecidableEq

def SquarefreeSampleResult.passed (r : SquarefreeSampleResult) : Bool :=
  r.violatingEndpoints = 0 && r.unresolvedEndpoints = 0

/-- `check_squarefree_sample` -/
def checkSquarefreeSample (mu : List Int) (lower upper : Int) (bound : ℚ) :
    Sampled SquarefreeSampleResult := do
  checkRange lower upper
  let lower := lower.toNat
  let upper := upper.toNat
  refuseIf (bound < 0) .negativeBound
  validateMuTable mu upper
  let scan ← (List.range' 1 upper).foldlM (squarefreeStep mu lower upper bound)
    { count := 0, checked := 0, safe := 0, violations := 0, unresolved := 0
      firstProblem := none, minimum := none }
  match scan.minimum with
  | none => .error (.noMinimum "squarefree")
  | some (slack, place) =>
      pure { lower := lower, upper := upper, bound := bound, finalSquarefreeCount := scan.count
             endpointsChecked := scan.checked, safeEndpoints := scan.safe
             violatingEndpoints := scan.violations, unresolvedEndpoints := scan.unresolved
             minimumLowerSlack := slack, minimumLowerSlackAt := place
             firstProblem := scan.firstProblem }

/-! ## The two step functions -/

/-- `Σ mu(k)/k` over the positive integers up to `x`. -/
noncomputable def littleMertensSum (mu : List Int) (x : ℝ) : ℝ :=
  ∑ k ∈ Icc 1 ⌊x⌋₊, (muAt mu k : ℝ) / k

/-- The number of positive integers up to `x` with a nonzero entry. -/
noncomputable def squarefreeCount (mu : List Int) (x : ℝ) : Nat :=
  ((Icc 1 ⌊x⌋₊).filter fun k => muAt mu k ≠ 0).card

/-- The right-hand side of the claim. -/
noncomputable def LittleMertensBound.rhs (x : ℝ) : LittleMertensBound → ℝ
  | sqrtTwoOverX => √((2 : ℕ) / x)
  | oneOverTwoSqrtX => 1 / ((2 : ℕ) * √x)

/-- The rational sum through an integer. -/
def sumThrough (mu : List Int) (n : Nat) : ℚ := ∑ k ∈ Icc 1 n, (muAt mu k : ℚ) / k

def countThrough (mu : List Int) (n : Nat) : Nat := ((Icc 1 n).filter fun k => muAt mu k ≠ 0).card

theorem sumThrough_succ (mu : List Int) (n : Nat) :
    sumThrough mu (n + 1) = sumThrough mu n + (muAt mu (n + 1) : ℚ) / (n + 1 : Nat) :=
  Finset.sum_Icc_succ_top (by omega) _

theorem countThrough_succ (mu : List Int) (n : Nat) :
    countThrough mu (n + 1)
      = if muAt mu (n + 1) ≠ 0 then countThrough mu n + 1 else countThrough mu n := by
  have hfresh : n + 1 ∉ (Icc 1 n).filter fun k => muAt mu k ≠ 0 := by simp
  unfold countThrough
  rw [← Finset.insert_Icc_right_eq_Icc_add_one (by omega), Finset.filter_insert]
  split
  · rw [Finset.card_insert_of_notMem hfresh]
  · rfl

/-! ## What the scans have checked -/

theorem requireMinimum_ok {name : String} {value minimum : Int} {u : Unit} :
    requireMinimum name value minimum = .ok u ↔ minimum ≤ value := by
  unfold requireMinimum
  rw [refuseIf_ok, not_lt]

/-- The invariant of the little-Mertens loop after the integers through `m`. -/
structure MertensScanned (mu : List Int) (lower upper : Nat) (bound : LittleMertensBound)
    (m : Nat) (scan : MertensScan) : Prop where
  state : scan.state = sumThrough mu m
  slack : scan.firstFailure = none → ∀ n, 1 ≤ n → lower ≤ n → n ≤ m →
    0 ≤ slackValue (sumThrough mu n) (rightEndpointOf upper n) bound

theorem mertensStep_scanned {mu : List Int} {lower upper m : Nat} {bound : LittleMertensBound}
    {scan scan' : MertensScan} (h : MertensScanned mu lower upper bound m scan)
    (hstep : mertensStep mu lower upper bound scan (m + 1) = .ok scan') :
    MertensScanned mu lower upper bound (m + 1) scan' := by
  unfold mertensStep at hstep
  dsimp only at hstep
  rw [h.state, ← sumThrough_succ] at hstep
  split at hstep
  · rename_i hskip
    obtain rfl := pure_ok.mp hstep
    refine ⟨rfl, fun hnone n h1 hlo hle => h.slack hnone n h1 hlo (by omega)⟩
  · obtain ⟨slack, hslack, hstep⟩ := bind_ok.mp hstep
    obtain rfl := pure_ok.mp hstep
    unfold littleMertensIntervalSlack at hslack
    obtain ⟨_, -, hslack⟩ := bind_ok.mp hslack
    rw [pure_ok] at hslack
    refine ⟨rfl, fun hnone n h1 hlo hle => ?_⟩
    -- no failure now means none before and none at this integer
    dsimp only at hnone
    split at hnone
    · exact absurd hnone (by simp)
    rename_i hgood
    have hnonneg : 0 ≤ slack := by
      by_contra hneg
      exact hgood ⟨not_le.mp hneg, hnone⟩
    by_cases hn : n = m + 1
    · rw [hn, hslack]
      exact hnonneg
    · exact h.slack hnone n h1 hlo (by omega)

theorem mertens_scanned {mu : List Int} {lower upper m : Nat} {bound : LittleMertensBound}
    {scan : MertensScan}
    (h : (List.range' 1 m).foldlM (mertensStep mu lower upper bound)
      { state := 0, minimum := none, firstFailure := none } = .ok scan) :
    MertensScanned mu lower upper bound m scan := by
  induction m generalizing scan with
  | zero =>
      obtain rfl := pure_ok.mp h
      exact ⟨rfl, fun _ n h1 _ hle => by omega⟩
  | succ m ih =>
      rw [List.range'_1_concat, List.foldlM_append, bind_ok] at h
      obtain ⟨before, hbefore, hlast⟩ := h
      rw [List.foldlM_cons, bind_ok] at hlast
      obtain ⟨after, hafter, hlast⟩ := hlast
      obtain rfl := pure_ok.mp hlast
      rw [Nat.add_comm 1 m] at hafter
      exact mertensStep_scanned (ih hbefore) hafter

/-- The lower slack of an endpoint. -/
def endpointSlack (count y : Nat) (bound : ℚ) : ℚ :=
  let worst := max |(count : ℚ) - SQUAREFREE_DENSITY_UPPER * y|
    |(count : ℚ) - SQUAREFREE_DENSITY_LOWER * y|
  bound * bound * y - worst * worst

theorem squarefreeEndpointSlackBounds_ok {count y : Nat} {bound : ℚ} {slacks : ℚ × ℚ}
    (h : squarefreeEndpointSlackBounds count y bound = .ok slacks) :
    slacks.1 = endpointSlack count y bound := by
  unfold squarefreeEndpointSlackBounds at h
  obtain ⟨_, -, h⟩ := bind_ok.mp h
  obtain ⟨_, -, h⟩ := bind_ok.mp h
  obtain ⟨_, -, h⟩ := bind_ok.mp h
  obtain rfl := pure_ok.mp h
  rfl

/-- No endpoint has failed so far. -/
def SquarefreeScan.Clean (scan : SquarefreeScan) : Prop := scan.violations = 0 ∧ scan.unresolved = 0

/-- A clean scan was clean before its last endpoint, whose slack is not negative. -/
theorem squarefreeEndpoint_ok {bound : ℚ} {scan scan' : SquarefreeScan}
    {place : Nat × EndpointSide} (h : squarefreeEndpoint bound scan place = .ok scan') :
    scan'.count = scan.count
      ∧ (scan'.Clean → scan.Clean ∧ 0 ≤ endpointSlack scan.count place.1 bound) := by
  unfold squarefreeEndpoint at h
  obtain ⟨slacks, hslacks, h⟩ := bind_ok.mp h
  have hlower := squarefreeEndpointSlackBounds_ok hslacks
  dsimp only at h
  split at h
  · rename_i hsafe
    obtain rfl := pure_ok.mp h
    exact ⟨rfl, fun hclean => ⟨hclean, hlower ▸ hsafe⟩⟩
  · split at h
    · obtain rfl := pure_ok.mp h
      exact ⟨rfl, fun hclean => absurd hclean.1 (Nat.succ_ne_zero _)⟩
    · obtain rfl := pure_ok.mp h
      exact ⟨rfl, fun hclean => absurd hclean.2 (Nat.succ_ne_zero _)⟩

theorem squarefreeEndpoints_ok {bound : ℚ} {places : List (Nat × EndpointSide)}
    {scan scan' : SquarefreeScan} (h : places.foldlM (squarefreeEndpoint bound) scan = .ok scan') :
    scan'.count = scan.count
      ∧ (scan'.Clean → scan.Clean ∧ ∀ place ∈ places, 0 ≤ endpointSlack scan.count place.1 bound) := by
  induction places generalizing scan with
  | nil =>
      obtain rfl := pure_ok.mp h
      exact ⟨rfl, fun hclean => ⟨hclean, by simp⟩⟩
  | cons place places ih =>
      rw [List.foldlM_cons, bind_ok] at h
      obtain ⟨next, hfirst, hrest⟩ := h
      obtain ⟨hcount, hfirst⟩ := squarefreeEndpoint_ok hfirst
      obtain ⟨hcount', hrest⟩ := ih hrest
      refine ⟨hcount'.trans hcount, fun hclean => ?_⟩
      obtain ⟨hnext, hplaces⟩ := hrest hclean
      obtain ⟨hscan, hplace⟩ := hfirst hnext
      rw [hcount] at hplaces
      exact ⟨hscan, List.forall_mem_cons.mpr ⟨hplace, hplaces⟩⟩

/-- The invariant of the squarefree loop after the integers through `m`. -/
structure SquarefreeScanned (mu : List Int) (lower upper : Nat) (bound : ℚ) (m : Nat)
    (scan : SquarefreeScan) : Prop where
  count : scan.count = countThrough mu m
  slack : scan.Clean → ∀ n, 1 ≤ n → lower ≤ n → n ≤ m →
    ∀ place ∈ endpointsOf upper n, 0 ≤ endpointSlack (countThrough mu n) place.1 bound

theorem squarefreeStep_scanned {mu : List Int} {lower upper m : Nat} {bound : ℚ}
    {scan scan' : SquarefreeScan} (h : SquarefreeScanned mu lower upper bound m scan)
    (hstep : squarefreeStep mu lower upper bound scan (m + 1) = .ok scan') :
    SquarefreeScanned mu lower upper bound (m + 1) scan' := by
  unfold squarefreeStep at hstep
  dsimp only at hstep
  rw [h.count, ← countThrough_succ] at hstep
  split at hstep
  · obtain rfl := Except.ok.inj hstep
    exact ⟨rfl, fun hclean n h1 hlo hle => h.slack hclean n h1 hlo (by omega)⟩
  · obtain ⟨hcount, hslack⟩ := squarefreeEndpoints_ok hstep
    refine ⟨hcount, fun hclean n h1 hlo hle => ?_⟩
    obtain ⟨hbefore, hhere⟩ := hslack hclean
    by_cases hn : n = m + 1
    · subst hn
      exact hhere
    · exact h.slack hbefore n h1 hlo (by omega)

theorem squarefree_scanned {mu : List Int} {lower upper m : Nat} {bound : ℚ}
    {scan : SquarefreeScan}
    (h : (List.range' 1 m).foldlM (squarefreeStep mu lower upper bound)
      { count := 0, checked := 0, safe := 0, violations := 0, unresolved := 0
        firstProblem := none, minimum := none } = .ok scan) :
    SquarefreeScanned mu lower upper bound m scan := by
  induction m generalizing scan with
  | zero =>
      obtain rfl := pure_ok.mp h
      exact ⟨rfl, fun _ n h1 _ hle => by omega⟩
  | succ m ih =>
      rw [List.range'_1_concat, List.foldlM_append, bind_ok] at h
      obtain ⟨before, hbefore, hlast⟩ := h
      rw [List.foldlM_cons, bind_ok] at hlast
      obtain ⟨after, hafter, hlast⟩ := hlast
      obtain rfl := pure_ok.mp hlast
      rw [Nat.add_comm 1 m] at hafter
      exact squarefreeStep_scanned (ih hbefore) hafter

/-! ## From the ends of a step to all of it -/

/-- A nonnegative slack at the right end bounds the sum at every point before it. -/
theorem abs_le_rhs {s : ℚ} {right : Nat} {bound : LittleMertensBound} {x : ℝ} (hx : 0 < x)
    (hright : x ≤ right) (h : 0 ≤ slackValue s right bound) : |(s : ℝ)| ≤ bound.rhs x := by
  have hsquare : x * (s : ℝ) ^ 2 ≤ right * (s : ℝ) ^ 2 := by gcongr
  cases bound with
  | sqrtTwoOverX =>
      have h := (Rat.cast_nonneg (K := ℝ)).mpr h
      unfold slackValue at h
      push_cast at h
      refine Real.abs_le_sqrt ?_
      rw [le_div_iff₀ hx, Nat.cast_ofNat]
      nlinarith
  | oneOverTwoSqrtX =>
      have h := (Rat.cast_nonneg (K := ℝ)).mpr h
      unfold slackValue at h
      push_cast at h
      have hfour : (s : ℝ) ^ 2 ≤ 1 / (4 * x) := by
        rw [le_div_iff₀ (by positivity)]
        nlinarith
      have hroot : √(1 / (4 * x)) = 1 / (2 * √x) := by
        rw [Real.sqrt_div zero_le_one, Real.sqrt_one, Real.sqrt_mul (by norm_num),
          show (4 : ℝ) = 2 ^ 2 by norm_num, Real.sqrt_sq (by norm_num)]
      show |(s : ℝ)| ≤ 1 / ((2 : ℕ) * √x)
      rw [Nat.cast_ofNat]
      exact (Real.abs_le_sqrt hfour).trans hroot.le

/-- A nonnegative lower slack is the squared inequality for the true density. -/
theorem endpoint_square_le {count y : Nat} {bound : ℚ} (h : 0 ≤ endpointSlack count y bound) :
    ((count : ℝ) - 6 / Real.pi ^ 2 * y) ^ 2 ≤ (bound : ℝ) ^ 2 * y := by
  obtain ⟨hlo, hhi⟩ := density_enclose
  unfold endpointSlack at h
  dsimp only at h
  have hreal : (max |(count : ℝ) - SQUAREFREE_DENSITY_UPPER * y|
      |(count : ℝ) - SQUAREFREE_DENSITY_LOWER * y|) ^ 2 ≤ (bound : ℝ) ^ 2 * y := by
    rw [pow_two, pow_two]
    exact_mod_cast sub_nonneg.mp h
  have hworst : |(count : ℝ) - 6 / Real.pi ^ 2 * y| ≤
      max |(count : ℝ) - SQUAREFREE_DENSITY_UPPER * y|
        |(count : ℝ) - SQUAREFREE_DENSITY_LOWER * y| := by
    refine abs_le_max_abs_abs ?_ ?_
    · gcongr
    · gcongr
  rw [← sq_abs]
  exact (pow_le_pow_left₀ (abs_nonneg _) hworst 2).trans hreal

/-- **The squared normalized error is convex**: both ends of a step bound all of it. -/
theorem convex_step {c d b n x : ℝ} (hlo : n ≤ x) (hhi : x ≤ n + 1)
    (hleft : (c - d * n) ^ 2 ≤ b ^ 2 * n) (hright : (c - d * (n + 1)) ^ 2 ≤ b ^ 2 * (n + 1)) :
    (c - d * x) ^ 2 ≤ b ^ 2 * x := by
  obtain ⟨t, rfl⟩ : ∃ t, x = n + t := ⟨x - n, by ring⟩
  have ht0 : 0 ≤ t := by linarith
  have ht1 : 0 ≤ 1 - t := by linarith
  have hmix : (c - d * (n + t)) ^ 2 - b ^ 2 * (n + t)
      = (1 - t) * ((c - d * n) ^ 2 - b ^ 2 * n)
        + t * ((c - d * (n + 1)) ^ 2 - b ^ 2 * (n + 1)) - d ^ 2 * (t * (1 - t)) := by ring
  have h1 := mul_nonneg ht1 (sub_nonneg.mpr hleft)
  have h2 := mul_nonneg ht0 (sub_nonneg.mpr hright)
  have h3 := mul_nonneg (sq_nonneg d) (mul_nonneg ht0 ht1)
  linarith

/-- The step of a point of the sample. -/
theorem floor_in_sample {lower upper : Nat} (hlower : 1 ≤ lower) {x : ℝ} (hlo : (lower : ℝ) ≤ x)
    (hhi : x ≤ upper) : 1 ≤ ⌊x⌋₊ ∧ lower ≤ ⌊x⌋₊ ∧ ⌊x⌋₊ ≤ upper ∧ (⌊x⌋₊ : ℝ) ≤ x
      ∧ x < ⌊x⌋₊ + 1 := by
  have hx : 0 ≤ x := (Nat.cast_nonneg lower).trans hlo
  have hfloor : lower ≤ ⌊x⌋₊ := Nat.le_floor hlo
  exact ⟨by omega, hfloor, Nat.floor_le_of_le hhi, Nat.floor_le hx, Nat.lt_floor_add_one x⟩

theorem checkRange_ok {lower upper : Int} {u : Unit} :
    checkRange lower upper = .ok u ↔ 1 ≤ lower ∧ 1 ≤ upper ∧ lower ≤ upper := by
  unfold checkRange
  simp only [bind_ok, requireMinimum_ok, refuseIf_ok, not_lt, exists_and_left, exists_const]

/-- **Little Mertens**: a passed sample bounds the sum at every real point. -/
theorem littleMertens_sound {mu : List Int} {lower upper : Int} {bound : LittleMertensBound}
    {r : LittleMertensSampleResult} (h : checkLittleMertensSample mu lower upper bound = .ok r)
    (hpassed : r.passed = true) {x : ℝ} (hlo : (lower : ℝ) ≤ x) (hhi : x ≤ upper) :
    |littleMertensSum mu x| ≤ bound.rhs x := by
  unfold checkLittleMertensSample at h
  simp only [bind_ok, checkRange_ok] at h
  obtain ⟨_, ⟨h1, -, hle⟩, _, -, scan, hscan, h⟩ := h
  obtain ⟨lo, rfl⟩ := Int.eq_ofNat_of_zero_le (show 0 ≤ lower by omega)
  obtain ⟨hi, rfl⟩ := Int.eq_ofNat_of_zero_le (show 0 ≤ upper by omega)
  rw [Int.toNat_natCast, Int.toNat_natCast] at hscan
  have hnone : scan.firstFailure = none := by
    split at h
    · exact absurd h (by simp)
    · obtain rfl := pure_ok.mp h
      exact of_decide_eq_true hpassed
  have hx : (0 : ℝ) < x := by
    have : (1 : ℝ) ≤ (lo : ℤ) := by exact_mod_cast h1
    linarith
  obtain ⟨hf1, hflo, hfhi, hfle, hflt⟩ :=
    @floor_in_sample lo hi (by omega) x (by exact_mod_cast hlo) (by exact_mod_cast hhi)
  have hslack := (mertens_scanned hscan).slack hnone _ hf1 hflo hfhi
  have hright : x ≤ rightEndpointOf hi ⌊x⌋₊ := by
    unfold rightEndpointOf
    split
    · push_cast
      exact hflt.le
    · -- the last integer: the sample ends here
      have hlast : ⌊x⌋₊ = hi := by omega
      rw [hlast]
      exact_mod_cast hhi
  have hcast : littleMertensSum mu x = (sumThrough mu ⌊x⌋₊ : ℝ) := by
    unfold littleMertensSum sumThrough
    push_cast
    rfl
  rw [hcast]
  exact abs_le_rhs hx hright hslack

/-- **Squarefree density**: a passed sample bounds the error at every real point. -/
theorem squarefree_sound {mu : List Int} {lower upper : Int} {bound : ℚ}
    {r : SquarefreeSampleResult} (h : checkSquarefreeSample mu lower upper bound = .ok r)
    (hpassed : r.passed = true) {x : ℝ} (hlo : (lower : ℝ) ≤ x) (hhi : x ≤ upper) :
    |(squarefreeCount mu x : ℝ) - 6 / Real.pi ^ 2 * x| ≤ bound * √x := by
  unfold checkSquarefreeSample at h
  simp only [bind_ok, checkRange_ok, refuseIf_ok, not_lt] at h
  obtain ⟨_, ⟨h1, -, hle⟩, _, hbound, _, -, scan, hscan, h⟩ := h
  obtain ⟨lo, rfl⟩ := Int.eq_ofNat_of_zero_le (show 0 ≤ lower by omega)
  obtain ⟨hi, rfl⟩ := Int.eq_ofNat_of_zero_le (show 0 ≤ upper by omega)
  rw [Int.toNat_natCast, Int.toNat_natCast] at hscan
  have hclean : scan.Clean := by
    split at h
    · exact absurd h (by simp)
    · obtain rfl := pure_ok.mp h
      unfold SquarefreeSampleResult.passed at hpassed
      rw [Bool.and_eq_true, decide_eq_true_iff, decide_eq_true_iff] at hpassed
      exact hpassed
  obtain ⟨hf1, hflo, hfhi, hfle, hflt⟩ :=
    @floor_in_sample lo hi (by omega) x (by exact_mod_cast hlo) (by exact_mod_cast hhi)
  have hslack := (squarefree_scanned hscan).slack hclean _ hf1 hflo hfhi
  unfold endpointsOf at hslack
  have hsquare : ((squarefreeCount mu x : ℝ) - 6 / Real.pi ^ 2 * x) ^ 2 ≤ (bound : ℝ) ^ 2 * x := by
    show ((countThrough mu ⌊x⌋₊ : ℝ) - 6 / Real.pi ^ 2 * x) ^ 2 ≤ (bound : ℝ) ^ 2 * x
    split at hslack
    · have hleft := endpoint_square_le (hslack (⌊x⌋₊, .atInteger) (by simp))
      have hright := endpoint_square_le (hslack (⌊x⌋₊ + 1, .leftLimit) (by simp))
      push_cast at hright
      exact convex_step hfle hflt.le hleft hright
    · have hlast : ⌊x⌋₊ = hi := by omega
      have hxhi : x = ⌊x⌋₊ := le_antisymm (by rw [hlast]; exact_mod_cast hhi) hfle
      have hleft := endpoint_square_le (hslack (⌊x⌋₊, .atInteger) (by simp))
      rw [← hxhi] at hleft
      exact hleft
  have hb : (0 : ℝ) ≤ bound := by exact_mod_cast hbound
  refine (Real.abs_le_sqrt hsquare).trans_eq ?_
  rw [Real.sqrt_mul (sq_nonneg _), Real.sqrt_sq hb]

/--
**Samples are sound over the whole interval.** A sample that is reported as passed bounds
the step function at every real point of its closed interval, for both kinds of samples.
-/
theorem samples_sound (mu : List Int) (lower upper : Int) :
    (∀ bound r, checkLittleMertensSample mu lower upper bound = .ok r → r.passed = true →
      ∀ x : ℝ, lower ≤ x → x ≤ upper → |littleMertensSum mu x| ≤ bound.rhs x)
    ∧ ∀ bound r, checkSquarefreeSample mu lower upper bound = .ok r → r.passed = true →
      ∀ x : ℝ, lower ≤ x → x ≤ upper →
        |(squarefreeCount mu x : ℝ) - 6 / Real.pi ^ 2 * x| ≤ bound * √x :=
  ⟨fun _ _ h hpassed _ => littleMertens_sound h hpassed,
    fun _ _ h hpassed _ => squarefree_sound h hpassed⟩

/-- The first four entries of the Möbius table bound both functions at `5 / 2`. -/
theorem samples_sound_four :
    |littleMertensSum [0, 1, -1, -1, 0] (5 / 2)| ≤ √(2 / (5 / 2))
      ∧ |(squarefreeCount [0, 1, -1, -1, 0] (5 / 2) : ℝ) - 6 / Real.pi ^ 2 * (5 / 2)|
        ≤ ((1 : ℚ) : ℝ) * √(5 / 2) := by
  have hsound := samples_sound [0, 1, -1, -1, 0] 1 4
  obtain ⟨r, hr, hpassed⟩ := Fallible.exists_ok_of_any
    (x := checkLittleMertensSample [0, 1, -1, -1, 0] 1 4 .sqrtTwoOverX)
    (p := LittleMertensSampleResult.passed) (by decide +kernel)
  obtain ⟨r', hr', hpassed'⟩ := Fallible.exists_ok_of_any
    (x := checkSquarefreeSample [0, 1, -1, -1, 0] 1 4 1)
    (p := SquarefreeSampleResult.passed) (by decide +kernel)
  exact ⟨hsound.1 _ r hr hpassed _ (by norm_num) (by norm_num),
    hsound.2 _ r' hr' hpassed' _ (by norm_num) (by norm_num)⟩

end AttestedCompute.Arithmetic
