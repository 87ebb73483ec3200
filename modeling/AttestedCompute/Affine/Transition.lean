import AttestedCompute.Lib.Fallible
import AttestedCompute.Lib.GuardedTranslation

/-!
# Affine guarded transitions

`AffineGuardTransition`, `compose_affine_guards` and `exclusive_scan_from_root` of
`tg_verifier/affine_guard_certificate.py`. A transition adds a fixed integer vector
to a state that lies between two guard vectors; the scan derives the input of every
shard from one root state and composes all transitions into an aggregate.

A transition can only be built through `AffineGuardTransition.make`, so its vectors
have one positive dimension and its guard interval is nonempty in every coordinate.
-/

namespace AttestedCompute.Affine

open Fallible (refuseIf)

/-- The failures of the transition algebra and of the scan. -/
inductive AffineGuardCertificateError where
  | emptyVector (name : String)
  | guardDimensions
  | emptyGuard (coordinate : Nat) (lo hi : Int)
  | stateDimension
  | guardViolated
  | composeDimensions
  | composeEmpty
  | scanDimension (index : Nat)
  | scanGuard (index : Nat)
  | aggregateRejects
  | aggregateDisagrees
  deriving DecidableEq, Repr

/-- The text of each failure. -/
def AffineGuardCertificateError.message : AffineGuardCertificateError → String
  | emptyVector name => name ++ " must not be empty"
  | guardDimensions => "delta and guard vectors must have the same dimension"
  | emptyGuard coordinate lo hi =>
      "empty guard at coordinate " ++ toString coordinate ++ ": " ++ toString lo ++ " > "
        ++ toString hi
  | stateDimension => "state and transition dimensions do not match"
  | guardViolated => "incoming state violates transition guard"
  | composeDimensions => "cannot compose transitions with different dimensions"
  | composeEmpty => "composed transition has no admissible incoming state"
  | scanDimension index => "transition " ++ toString index ++ " has the wrong state dimension"
  | scanGuard index =>
      "root-derived incoming state violates shard " ++ toString index ++ " guard"
  | aggregateRejects => "aggregate transition unexpectedly rejects the root state"
  | aggregateDisagrees => "aggregate transition disagrees with the exclusive scan"

abbrev Result := Except AffineGuardCertificateError

/-- `_require_vector` on an integer sequence. -/
def requireVector (name : String) (value : List Int) : Result (List Int) :=
  if value = [] then .error (.emptyVector name) else .ok value

/-- An integer-vector update and its inclusive incoming-state guards. -/
structure AffineGuardTransition where
  delta : List Int
  lowerGuard : List Int
  upperGuard : List Int
  nonempty : delta ≠ []
  lower_length : lowerGuard.length = delta.length
  upper_length : upperGuard.length = delta.length
  guards : ∀ p ∈ lowerGuard.zip upperGuard, p.1 ≤ p.2
  deriving DecidableEq

/-- The first coordinate whose guard is empty. -/
def firstEmptyGuard (lower upper : List Int) : Option ((Int × Int) × Nat) :=
  (lower.zip upper).zipIdx.find? fun p => p.1.2 < p.1.1

theorem firstEmptyGuard_eq_none {lower upper : List Int} :
    firstEmptyGuard lower upper = none ↔ ∀ p ∈ lower.zip upper, p.1 ≤ p.2 := by
  rw [firstEmptyGuard, List.find?_eq_none]
  constructor
  · intro h p hp
    obtain ⟨i, hi⟩ := List.mem_iff_getElem?.mp hp
    have hmem : (p, i) ∈ (lower.zip upper).zipIdx := List.mem_zipIdx_iff_getElem?.mpr hi
    simpa using h (p, i) hmem
  · intro h p hp
    simpa using h p.1 (List.fst_mem_of_mem_zipIdx hp)

/-- `__post_init__` -/
def AffineGuardTransition.make (delta lower upper : List Int) : Result AffineGuardTransition :=
  if hdelta : delta = [] then .error (.emptyVector "delta")
  else if lower = [] then .error (.emptyVector "lower_guard")
  else if upper = [] then .error (.emptyVector "upper_guard")
  else if hlen : lower.length = delta.length ∧ upper.length = delta.length then
    match hguards : firstEmptyGuard lower upper with
    | some ((lo, hi), coordinate) => .error (.emptyGuard coordinate lo hi)
    | none =>
        .ok { delta := delta, lowerGuard := lower, upperGuard := upper, nonempty := hdelta
              lower_length := hlen.1, upper_length := hlen.2
              guards := firstEmptyGuard_eq_none.mp hguards }
  else .error .guardDimensions

namespace AffineGuardTransition

def dimension (t : AffineGuardTransition) : Nat := t.delta.length

/-- `all(lo <= value <= hi for value, lo, hi in zip(...))` -/
def withinGuards (t : AffineGuardTransition) (state : List Int) : Bool :=
  (state.zip (t.lowerGuard.zip t.upperGuard)).all fun p => p.2.1 ≤ p.1 && p.1 ≤ p.2.2

def accepts (t : AffineGuardTransition) (state : List Int) : Result Bool := do
  let candidate ← requireVector "state" state
  refuseIf (candidate.length ≠ t.dimension) .stateDimension
  pure (t.withinGuards candidate)

def apply (t : AffineGuardTransition) (state : List Int) : Result (List Int) := do
  let candidate ← requireVector "state" state
  refuseIf (candidate.length ≠ t.dimension) .stateDimension
  let accepted ← t.accepts candidate
  refuseIf (accepted = false) .guardViolated
  pure (List.zipWith (· + ·) candidate t.delta)

end AffineGuardTransition

/-- `left + right` in every coordinate. -/
def composedDelta (first second : AffineGuardTransition) : List Int :=
  List.zipWith (· + ·) first.delta second.delta

/-- `max(left, right - change)` in every coordinate. -/
def composedLower (first second : AffineGuardTransition) : List Int :=
  List.zipWith max first.lowerGuard (List.zipWith (· - ·) second.lowerGuard first.delta)

/-- `min(left, right - change)` in every coordinate. -/
def composedUpper (first second : AffineGuardTransition) : List Int :=
  List.zipWith min first.upperGuard (List.zipWith (· - ·) second.upperGuard first.delta)

/-- `compose_affine_guards`: run `first` and then `second`. -/
def composeAffineGuards (first second : AffineGuardTransition) : Result AffineGuardTransition :=
  if first.dimension ≠ second.dimension then .error .composeDimensions
  else
    match AffineGuardTransition.make (composedDelta first second) (composedLower first second)
        (composedUpper first second) with
    | .ok t => .ok t
    | .error _ => .error .composeEmpty

/-- Inputs derived for each shard and the exact composed transition. -/
structure ExclusiveScanResult where
  incomingStates : List (List Int)
  finalState : List Int
  aggregateTransition : Option AffineGuardTransition

/-- The local variables of the scan loop. -/
structure ScanState where
  incoming : List (List Int)
  current : List Int
  aggregate : Option AffineGuardTransition

/-- The aggregate with one more transition behind it. -/
def extendAggregate (aggregate : Option AffineGuardTransition)
    (transition : AffineGuardTransition) : Result AffineGuardTransition :=
  match aggregate with
  | none => .ok transition
  | some aggregate => composeAffineGuards aggregate transition

/-- One iteration of the scan loop. -/
def scanStep (root : List Int) (scan : ScanState) (entry : AffineGuardTransition × Nat) :
    Result ScanState := do
  let (transition, index) := entry
  refuseIf (transition.dimension ≠ root.length) (.scanDimension index)
  let accepted ← transition.accepts scan.current
  refuseIf (accepted = false) (.scanGuard index)
  let next ← transition.apply scan.current
  let aggregate ← extendAggregate scan.aggregate transition
  pure { incoming := scan.incoming ++ [scan.current], current := next, aggregate := some aggregate }

/-- The checks of the aggregate after the loop. -/
def checkAggregate (root : List Int) (scan : ScanState) : Result Unit :=
  match scan.aggregate with
  | none => .ok ()
  | some aggregate => do
      let accepted ← aggregate.accepts root
      refuseIf (accepted = false) .aggregateRejects
      let outcome ← aggregate.apply root
      refuseIf (outcome ≠ scan.current) .aggregateDisagrees

/-- `exclusive_scan_from_root` -/
def exclusiveScanFromRoot (rootState : List Int) (transitions : List AffineGuardTransition) :
    Result ExclusiveScanResult := do
  let root ← requireVector "root_state" rootState
  let scan ← transitions.zipIdx.foldlM (scanStep root)
    { incoming := [], current := root, aggregate := none }
  checkAggregate root scan
  pure { incomingStates := scan.incoming, finalState := scan.current
         aggregateTransition := scan.aggregate }

/-- Applying the transitions one after another. -/
def sequentialRun (rootState : List Int) (transitions : List AffineGuardTransition) :
    Result (List Int) := do
  let root ← requireVector "root_state" rootState
  transitions.foldlM (fun state transition => transition.apply state) root

end AttestedCompute.Affine
