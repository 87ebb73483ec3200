import AttestedCompute.Lib.Fallible
import AttestedCompute.Lib.Json

/-!
# Character states of the v3 format

The state that `tg_verifier/dirichlet_compact_state_streaming_v3.py` keeps of one character: how
often its sign changes, its first and its last determinate sign, and the maximal ranges of the grid
on which the sign is ambiguous. A state is scanned from one sign code for each sample, and the states
of adjacent lanes are merged without the samples.
-/

namespace AttestedCompute.CompactV3

open Fallible

/-- How a v3 function ends when it does not return. -/
inductive Failure where
  /-- `DirichletCompactStateV3Error` with its message. -/
  | failed (message : String)
  /-- `AssertionError` -/
  | assertion
  /-- `struct.error` -/
  | struct
  deriving DecidableEq, Repr

abbrev Checked := Except Failure

/-- `if condition: _fail(message)` -/
def failIf (condition : Prop) [Decidable condition] (message : String) : Checked Unit :=
  refuseIf condition (.failed message)

@[simp] theorem failIf_ok {condition : Prop} [Decidable condition] {message : String} {u : Unit} :
    failIf condition message = .ok u ↔ ¬ condition := refuseIf_ok

def SOURCE_SAMPLE_NUMERATOR : Int := 5

def MAX_EVENT_COUNT : Int := 2 ^ 64 - 1

/-- A primitive character of the roster. -/
structure Identity where
  conreyNumber : Int
  primitiveOrdinal : Int
  parity : Int
  deriving DecidableEq, Repr

structure AmbiguityRange where
  firstTNumerator : Int
  stopTNumerator : Int
  deriving DecidableEq, Repr

structure DebugBracket where
  lowerTNumerator : Int
  upperTNumerator : Int
  lowerSign : Int
  upperSign : Int
  interveningAmbiguityCount : Int
  deriving DecidableEq, Repr

@[ext]
structure CharacterState where
  conreyNumber : Int
  primitiveOrdinal : Int
  parity : Int
  sampleCount : Int
  firstDeterminateNumerator : Option Int
  firstSign : Int
  lastDeterminateNumerator : Option Int
  lastSign : Int
  leadingAmbiguityCount : Int
  trailingAmbiguityCount : Int
  ambiguityCount : Int
  internalSignChangeCount : Int
  ambiguityRanges : List AmbiguityRange
  bracketRecords : List DebugBracket
  deriving DecidableEq, Repr

/-! ## Counting ambiguous samples at the two ends -/

/-- The samples of a range that begins with the span. -/
def leadingCount (spanFirst : Int) (ranges : List AmbiguityRange) : Int :=
  match ranges.head? with
  | none => 0
  | some range =>
      if range.firstTNumerator = spanFirst then
        (range.stopTNumerator - spanFirst) / SOURCE_SAMPLE_NUMERATOR
      else 0

/-- The samples of a range that ends with the span. -/
def trailingCount (spanStop : Int) (ranges : List AmbiguityRange) : Int :=
  match ranges.getLast? with
  | none => 0
  | some range =>
      if range.stopTNumerator = spanStop then
        (spanStop - range.firstTNumerator) / SOURCE_SAMPLE_NUMERATOR
      else 0

/-! ## Scanning -/

/-- The local variables of the loop over the samples. -/
structure CodeScan where
  first : Option Int := none
  firstSign : Int := 0
  last : Option Int := none
  lastSign : Int := 0
  transitions : Int := 0
  ambiguityCount : Int := 0
  ranges : List AmbiguityRange := []
  openRange : Option Int := none

/-- Close a range that is open. -/
def CodeScan.closed (s : CodeScan) (numerator : Int) : List AmbiguityRange :=
  match s.openRange with
  | none => s.ranges
  | some start => s.ranges ++ [⟨start, numerator⟩]

/-- The body of the loop, for an admitted code. -/
def CodeScan.observe (s : CodeScan) (numerator code : Int) : CodeScan :=
  if code = 0 then
    { s with
      ambiguityCount := s.ambiguityCount + 1
      openRange := some (s.openRange.getD numerator) }
  else
    let sign := if code = 1 then -1 else 1
    { s with
      ranges := s.closed numerator
      openRange := none
      first := some (s.first.getD numerator)
      firstSign := if s.first = none then sign else s.firstSign
      transitions := if s.first ≠ none ∧ s.lastSign ≠ sign then s.transitions + 1
        else s.transitions
      last := some numerator
      lastSign := sign }

/-- The loop over the samples. It returns the codes that are left. -/
def scanCodes (spanFirst : Int) :
    Nat → Nat → CodeScan → List Int → Checked (CodeScan × List Int)
  | _, 0, s, codes => pure (s, codes)
  | _, _ + 1, _, [] => .error (.failed "direct v3 sign producer ended inside one character")
  | index, count + 1, s, code :: codes => do
      failIf (code ∉ [0, 1, 2]) "direct v3 sign producer emitted a reserved code"
      let numerator := spanFirst + index * SOURCE_SAMPLE_NUMERATOR
      scanCodes spanFirst (index + 1) count (s.observe numerator code) codes

/-- The dictionary that is returned. -/
def CodeScan.state (s : CodeScan) (identity : Identity) (spanFirst : Int) (sampleCount : Nat) :
    CharacterState :=
  let spanStop := spanFirst + sampleCount * SOURCE_SAMPLE_NUMERATOR
  let ranges := s.closed spanStop
  { conreyNumber := identity.conreyNumber
    primitiveOrdinal := identity.primitiveOrdinal
    parity := identity.parity
    sampleCount := sampleCount
    firstDeterminateNumerator := s.first
    firstSign := s.firstSign
    lastDeterminateNumerator := s.last
    lastSign := s.lastSign
    leadingAmbiguityCount := leadingCount spanFirst ranges
    trailingAmbiguityCount := trailingCount spanStop ranges
    ambiguityCount := s.ambiguityCount
    internalSignChangeCount := s.transitions
    ambiguityRanges := ranges
    bracketRecords := [] }

/-- `_state_from_codes` -/
def stateFromCodes (identity : Identity) (codes : List Int) (spanFirst : Int) (sampleCount : Nat) :
    Checked (CharacterState × List Int) := do
  let (scan, rest) ← scanCodes spanFirst 0 sampleCount {} codes
  pure (scan.state identity spanFirst sampleCount, rest)

/-- `_state_span` -/
def stateSpan (firstTNumerator stopTNumerator : Int) : Checked Nat := do
  failIf (¬ (0 ≤ firstTNumerator ∧ firstTNumerator ≤ MAX_EVENT_COUNT))
    "first t numerator is outside its fixed unsigned bound"
  failIf (¬ (0 ≤ stopTNumerator ∧ stopTNumerator ≤ MAX_EVENT_COUNT))
    "stop t numerator is outside its fixed unsigned bound"
  failIf (stopTNumerator ≤ firstTNumerator ∨
      (stopTNumerator - firstTNumerator) % SOURCE_SAMPLE_NUMERATOR ≠ 0)
    "v3 state is not a nonempty exact 5/64 grid"
  pure ((stopTNumerator - firstTNumerator) / SOURCE_SAMPLE_NUMERATOR).toNat

theorem stateSpan_ok {first stop : Int} {samples : Nat} :
    stateSpan first stop = .ok samples ↔
      (0 ≤ first ∧ first < stop ∧ stop ≤ MAX_EVENT_COUNT ∧
        (stop - first) % SOURCE_SAMPLE_NUMERATOR = 0) ∧
      samples = ((stop - first) / SOURCE_SAMPLE_NUMERATOR).toNat := by
  simp only [stateSpan, bind_ok, failIf_ok, pure_ok, not_not]
  constructor
  · intro h
    obtain ⟨_, hfirst, _, hstop, _, hgrid, rfl⟩ := h
    rw [not_or, not_not] at hgrid
    exact ⟨⟨hfirst.1, by omega, hstop.2, hgrid.2⟩, rfl⟩
  · intro h
    obtain ⟨⟨hfirst, hlt, hstop, hgrid⟩, rfl⟩ := h
    exact ⟨(), by omega, (), by omega, (), by rw [not_or, not_not]; exact ⟨by omega, hgrid⟩, rfl⟩

/-- The loop over the roster. -/
def characterStates (spanFirst : Int) (sampleCount : Nat) :
    List Identity → List Int → Checked (List CharacterState × List Int)
  | [], codes => pure ([], codes)
  | identity :: roster, codes => do
      let (state, rest) ← stateFromCodes identity codes spanFirst sampleCount
      let (states, rest) ← characterStates spanFirst sampleCount roster rest
      pure (state :: states, rest)

/-- `character_states_from_flat_sign_codes`, run to its end. -/
def characterStatesFromFlatSignCodes (roster : List Identity)
    (firstTNumerator stopTNumerator : Int) (codeChunks : List (List Int)) :
    Checked (List CharacterState) := do
  let samples ← stateSpan firstTNumerator stopTNumerator
  let (states, rest) ← characterStates firstTNumerator samples roster codeChunks.flatten
  failIf (rest ≠ []) "direct v3 sign producer has trailing codes"
  pure states

/-! ## Merging -/

/-- The ranges of two lanes, the ones that meet at the border made one. -/
def joinRanges (left right : List AmbiguityRange) : List AmbiguityRange :=
  match left.getLast?, right with
  | some before, range :: rest =>
      if before.stopTNumerator = range.firstTNumerator then
        left.dropLast ++ ⟨before.firstTNumerator, range.stopTNumerator⟩ :: rest
      else left ++ right
  | _, _ => left ++ right

/-- The bracket of a sign change across the border. -/
def boundaryBracket (left right : CharacterState) : Checked DebugBracket :=
  match left.lastDeterminateNumerator, right.firstDeterminateNumerator with
  | some lower, some upper => pure
      { lowerTNumerator := lower
        upperTNumerator := upper
        lowerSign := left.lastSign
        upperSign := right.firstSign
        interveningAmbiguityCount := left.trailingAmbiguityCount + right.leadingAmbiguityCount }
  | _, _ => .error .assertion

/-- The bracket rows of a merged state. -/
def mergedBrackets (left right : CharacterState) (insertBoundary debug : Bool) :
    Checked (List DebugBracket) :=
  if debug then
    if insertBoundary then do
      let bracket ← boundaryBracket left right
      pure (left.bracketRecords ++ bracket :: right.bracketRecords)
    else pure (left.bracketRecords ++ right.bracketRecords)
  else pure []

/-- There is a sign change across the border. -/
def insertBoundary (left right : CharacterState) : Bool :=
  left.firstDeterminateNumerator.isSome && right.firstDeterminateNumerator.isSome
    && left.lastSign ≠ right.firstSign

/-- Everything but the bracket rows of a merged state. -/
def mergedState (left right : CharacterState) (leftSamples rightSamples : Int) : CharacterState :=
  let leftHas := left.firstDeterminateNumerator.isSome
  let rightHas := right.firstDeterminateNumerator.isSome
  { conreyNumber := left.conreyNumber
    primitiveOrdinal := left.primitiveOrdinal
    parity := left.parity
    sampleCount := leftSamples + rightSamples
    firstDeterminateNumerator :=
      if leftHas then left.firstDeterminateNumerator else right.firstDeterminateNumerator
    firstSign :=
      if leftHas then left.firstSign else if rightHas then right.firstSign else 0
    lastDeterminateNumerator :=
      if rightHas then right.lastDeterminateNumerator else left.lastDeterminateNumerator
    lastSign := if rightHas then right.lastSign else if leftHas then left.lastSign else 0
    leadingAmbiguityCount :=
      if leftHas then left.leadingAmbiguityCount else leftSamples + right.leadingAmbiguityCount
    trailingAmbiguityCount :=
      if rightHas then right.trailingAmbiguityCount
      else rightSamples + left.trailingAmbiguityCount
    ambiguityCount := left.ambiguityCount + right.ambiguityCount
    internalSignChangeCount := left.internalSignChangeCount + right.internalSignChangeCount
      + if insertBoundary left right then 1 else 0
    ambiguityRanges := joinRanges left.ambiguityRanges right.ambiguityRanges
    bracketRecords := [] }

/-- `_merge_character_states` -/
def mergeCharacterStates (left right : CharacterState)
    (leftFirst leftStop rightFirst rightStop : Int) (debug : Bool) : Checked CharacterState := do
  failIf (leftStop ≠ rightFirst) "v3 character states are not adjacent exact-grid lanes"
  failIf (left.conreyNumber ≠ right.conreyNumber
      ∨ left.primitiveOrdinal ≠ right.primitiveOrdinal ∨ left.parity ≠ right.parity)
    "v3 cross-lane character identities differ"
  let brackets ← mergedBrackets left right (insertBoundary left right) debug
  pure { mergedState left right ((leftStop - leftFirst) / SOURCE_SAMPLE_NUMERATOR)
      ((rightStop - rightFirst) / SOURCE_SAMPLE_NUMERATOR) with bracketRecords := brackets }

end AttestedCompute.CompactV3
