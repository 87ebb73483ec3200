import AttestedCompute.Dirichlet.SignScan
import AttestedCompute.Lib.JsonAscii
import AttestedCompute.Lib.Sha256

/-!
# Compact states

A compact state of `tg_verifier/dirichlet_stream_zero_consumer.py` sums up the shards of one
modulus over a stretch of the grid: the record of every primitive character, the sign changes
inside the shards and across their cuts, and one polynomial commitment to the event summaries
it was built from. The state carries the SHA-256 of its own canonical JSON.

The roster of primitive characters is a fixed function of the modulus.
-/

namespace AttestedCompute.Dirichlet

open Fallible

/-! ## Leaf commitments -/

def ROLLING_MODULUS : Nat := 2 ^ 255 - 19

def ROLLING_BASE : Nat :=
  Bytes.beValue (Sha256.digest
    (Text.utf8 (Text.ofString "sparkinterval/tg/dirichlet-event/rolling-base/v1")))
    % (ROLLING_MODULUS - 1) + 1

/-- `f"{value:064x}"` -/
def hex64 (value : Nat) : Text :=
  (Positional.digits 16 64 value).map fun d => Text.ofChar (Bytes.hexDigit d)

/-- The digit of a code point in `0123456789abcdef`. -/
def hexDigitOf (c : CodePoint) : Option Nat :=
  if 0x30 ≤ c.val ∧ c.val ≤ 0x39 then some (c.val - 0x30)
  else if 0x61 ≤ c.val ∧ c.val ≤ 0x66 then some (c.val - 0x61 + 10)
  else none

/-- `int(value, 16)` of lowercase hexadecimal digits. -/
def hexValue (value : Text) : Nat :=
  Positional.value 16 (value.map fun c => (hexDigitOf c).getD 0)

/-- `combine_associative_event_commitments` -/
def combineAssociativeEventCommitments (leftCount : Int) (leftValue : Nat) (rightCount : Int)
    (rightValue : Nat) : Checked (Int × Nat) := do
  failIf (CharacterRecord.isUint64 leftCount = false) "left event count is outside uint64"
  failIf (CharacterRecord.isUint64 rightCount = false) "right event count is outside uint64"
  failIf (¬ leftValue < ROLLING_MODULUS) "left event commitment is outside its field"
  failIf (¬ rightValue < ROLLING_MODULUS) "right event commitment is outside its field"
  failIf (leftCount + rightCount > MAX_EVENT_COUNT) "combined event count overflows uint64"
  pure (leftCount + rightCount,
    (leftValue * (ROLLING_BASE ^ rightCount.toNat % ROLLING_MODULUS) + rightValue)
      % ROLLING_MODULUS)

structure LeafCommitment where
  modulusHex : Text
  baseHex : Text
  valueHex : Text
  leafCount : PyInt
  combination : Text
  deriving DecidableEq

def COMBINATION : Text := Text.ofString "(n,h)++(m,g)=(n+m,h*base^m+g mod modulus)"

/-- `_compact_state_commitment` -/
def compactStateCommitment (count : Int) (value : Nat) : LeafCommitment where
  modulusHex := hex64 ROLLING_MODULUS
  baseHex := hex64 ROLLING_BASE
  valueHex := hex64 value
  leafCount := .int count
  combination := COMBINATION

/-! ## States -/

structure CompactContext where
  q : Int
  primitiveCharacterCount : Int
  frameCount : Int
  firstTNumerator : Int
  stopTNumerator : Int
  tDenominator : Int
  tStepNumerator : Int
  deriving DecidableEq, Repr

@[ext]
structure CompactState where
  schema : Text
  schemaVersion : Int
  classification : Text
  context : CompactContext
  characterStates : List CharacterRecord
  leafEventSummaryCount : Int
  leafEventSummaryCommitment : LeafCommitment
  internalSignChangeCount : Int
  crossBoundarySignChangeCount : Int
  signChangeLowerBound : Int
  ambiguitySampleCount : Int
  exactAmbiguityRangesRetained : Bool
  orderedBracketRecordsRetained : Bool
  refinementArtifactsComplete : Bool
  turingCompleteness : Bool
  sourceScaleStateEncoding : Bool
  externalAtomDischarged : Bool
  stateSha256 : Text
  deriving DecidableEq

def COMPACT_STATE_SCHEMA : Text := 
  Text.ofString "sparkinterval.tg.dirichlet_stream_consumer.compact_state.v2"

def COMPACT_STATE_CLASSIFICATION : Text :=
  Text.ofString "associative_per_character_sign_scan_state_not_zero_completeness"

/-! ## The canonical text -/

def object (members : List (String × Json)) : Json :=
  .obj (members.map fun member => (Text.ofString member.1, member.2))

def optional (value : Option Int) : Json :=
  match value with
  | none => .null
  | some n => .int n

def AmbiguityRange.toJson (range : AmbiguityRange) : Json := object [
  ("first_t_numerator", .int range.firstTNumerator),
  ("stop_t_numerator", .int range.stopTNumerator)]

def BracketRecord.toJson (bracket : BracketRecord) : Json := object [
  ("lower_t_numerator", .int bracket.lowerTNumerator),
  ("upper_t_numerator", .int bracket.upperTNumerator),
  ("lower_sign", bracket.lowerSign.toJson),
  ("upper_sign", bracket.upperSign.toJson),
  ("intervening_ambiguity_count", .int bracket.interveningAmbiguityCount)]

def CharacterRecord.toJson (value : CharacterRecord) : Json := object [
  ("conrey_number", .int value.conreyNumber),
  ("primitive_ordinal", .int value.primitiveOrdinal),
  ("parity", value.parity.toJson),
  ("sample_count", .int value.sampleCount),
  ("first_determinate_numerator", optional value.firstDeterminateNumerator),
  ("first_sign", value.firstSign.toJson),
  ("last_determinate_numerator", optional value.lastDeterminateNumerator),
  ("last_sign", value.lastSign.toJson),
  ("leading_ambiguity_count", .int value.leadingAmbiguityCount),
  ("trailing_ambiguity_count", .int value.trailingAmbiguityCount),
  ("ambiguity_count", .int value.ambiguityCount),
  ("positive_count", .int value.positiveCount),
  ("negative_count", .int value.negativeCount),
  ("bracket_count", .int value.bracketCount),
  ("multiplicity_lower_bound_sum", .int value.multiplicityLowerBoundSum),
  ("ambiguity_ranges", .arr (value.ambiguityRanges.map AmbiguityRange.toJson)),
  ("bracket_records", .arr (value.bracketRecords.map BracketRecord.toJson))]

def CompactContext.toJson (context : CompactContext) : Json := object [
  ("q", .int context.q),
  ("primitive_character_count", .int context.primitiveCharacterCount),
  ("frame_count", .int context.frameCount),
  ("first_t_numerator", .int context.firstTNumerator),
  ("stop_t_numerator", .int context.stopTNumerator),
  ("t_denominator", .int context.tDenominator),
  ("t_step_numerator", .int context.tStepNumerator)]

def LeafCommitment.toJson (commitment : LeafCommitment) : Json := object [
  ("modulus_hex", .str commitment.modulusHex),
  ("base_hex", .str commitment.baseHex),
  ("value_hex", .str commitment.valueHex),
  ("leaf_count", commitment.leafCount.toJson),
  ("combination", .str commitment.combination)]

namespace CompactState

/-- Everything but the self-hash. -/
def body (state : CompactState) : Json := object [
  ("schema", .str state.schema),
  ("schema_version", .int state.schemaVersion),
  ("classification", .str state.classification),
  ("context", state.context.toJson),
  ("character_states", .arr (state.characterStates.map CharacterRecord.toJson)),
  ("leaf_event_summary_count", .int state.leafEventSummaryCount),
  ("leaf_event_summary_commitment", state.leafEventSummaryCommitment.toJson),
  ("internal_sign_change_count", .int state.internalSignChangeCount),
  ("cross_boundary_sign_change_count", .int state.crossBoundarySignChangeCount),
  ("sign_change_lower_bound", .int state.signChangeLowerBound),
  ("ambiguity_sample_count", .int state.ambiguitySampleCount),
  ("exact_ambiguity_ranges_retained", .bool state.exactAmbiguityRangesRetained),
  ("ordered_bracket_records_retained", .bool state.orderedBracketRecordsRetained),
  ("refinement_artifacts_complete", .bool state.refinementArtifactsComplete),
  ("turing_completeness", .bool state.turingCompleteness),
  ("source_scale_state_encoding", .bool state.sourceScaleStateEncoding),
  ("external_atom_discharged", .bool state.externalAtomDischarged)]

/-- `hashlib.sha256(canonical_json_bytes(body)).hexdigest()` -/
def bodySha256 (state : CompactState) : Checked Text :=
  match Json.asciiBytes state.body with
  | .ok bytes => .ok (Text.ofString (Sha256.hexdigest (bytes ++ [0x0A])))
  | .error fault => .error (.json fault)

/-- `result["state_sha256"] = ...` -/
def sealState (state : CompactState) : Checked CompactState := do
  let hash ← state.bodySha256
  pure { state with stateSha256 := hash }

end CompactState

/-- `_compact_state_body`, with the hash still to come. -/
def compactStateBody (context : CompactContext) (characterStates : List CharacterRecord)
    (leafCount : Int) (commitment : Nat) (internal cross ambiguities : Int) :
    Checked CompactState := do
  failIf (CharacterRecord.isUint64 leafCount = false) "leaf event summary count is outside uint64"
  failIf (CharacterRecord.isUint64 internal = false) "internal sign change count is outside uint64"
  failIf (CharacterRecord.isUint64 cross = false)
    "cross-boundary sign change count is outside uint64"
  failIf (CharacterRecord.isUint64 (internal + cross) = false)
    "sign-change lower bound count is outside uint64"
  failIf (CharacterRecord.isUint64 ambiguities = false) "ambiguity sample count is outside uint64"
  failIf (leafCount = 0) "compact state must contain at least one event-summary leaf"
  pure
    { schema := COMPACT_STATE_SCHEMA
      schemaVersion := 2
      classification := COMPACT_STATE_CLASSIFICATION
      context := context
      characterStates := characterStates
      leafEventSummaryCount := leafCount
      leafEventSummaryCommitment := compactStateCommitment leafCount commitment
      internalSignChangeCount := internal
      crossBoundarySignChangeCount := cross
      signChangeLowerBound := internal + cross
      ambiguitySampleCount := ambiguities
      exactAmbiguityRangesRetained := true
      orderedBracketRecordsRetained := true
      refinementArtifactsComplete := false
      turingCompleteness := false
      sourceScaleStateEncoding := false
      externalAtomDischarged := false
      stateSha256 := [] }

/-! ## Validation -/

/-- `_integer(name, value, minimum=minimum)` -/
def requireInteger (name : String) (value minimum : Int) : Checked Unit :=
  failIf (value < minimum) (name ++ " must be at least " ++ toString minimum)

namespace CompactState

def checkIdentity (value : CompactState) : Checked Unit := do
  failIf (value.schema ≠ COMPACT_STATE_SCHEMA ∨ value.schemaVersion ≠ 2
      ∨ value.classification ≠ COMPACT_STATE_CLASSIFICATION
      ∨ value.exactAmbiguityRangesRetained = false ∨ value.orderedBracketRecordsRetained = false
      ∨ value.refinementArtifactsComplete = true ∨ value.turingCompleteness = true
      ∨ value.sourceScaleStateEncoding = true ∨ value.externalAtomDischarged = true)
    "compact state summary identity or self-hash differs"
  let hash ← value.bodySha256
  failIf (value.stateSha256 ≠ hash) "compact state summary identity or self-hash differs"

def checkContext (context : CompactContext) : Checked Unit := do
  requireInteger "compact state q" context.q 1
  requireInteger "compact state primitive character count" context.primitiveCharacterCount 0
  requireInteger "compact state frame count" context.frameCount 1
  requireInteger "compact state first t numerator" context.firstTNumerator 0
  requireInteger "compact state stop t numerator" context.stopTNumerator context.firstTNumerator
  failIf (context.tDenominator ≠ SOURCE_SAMPLE_DENOMINATOR
      ∨ context.tStepNumerator ≠ SOURCE_SAMPLE_NUMERATOR
      ∨ (context.stopTNumerator - context.firstTNumerator) % SOURCE_SAMPLE_NUMERATOR ≠ 0)
    "compact state source grid differs"

end CompactState

/-- The number of samples of each character. -/
def CompactContext.samples (context : CompactContext) : Int :=
  (context.stopTNumerator - context.firstTNumerator) / SOURCE_SAMPLE_NUMERATOR

/-- What the roster says of a character. -/
structure RosterIdentity where
  primitiveOrdinal : Int
  conreyNumber : Int
  parity : Int
  deriving DecidableEq, Repr

/-- `primitive_frequency_records_bulk`, which can fail. -/
abbrev Roster := Int → Checked (List RosterIdentity)

namespace CompactState

/-- The ordinates that must lie on the source grid. -/
def boundaryNumerators (state : CharacterRecord) : Checked (List Int) :=
  match state.firstDeterminateNumerator, state.lastDeterminateNumerator with
  | none, _ => pure []
  | some first, some last => pure [first, last]
  | some _, none => .error .assertion

def checkCharacter (context : CompactContext) (ordinal : Int) (state : CharacterRecord)
    (identity : RosterIdentity) : Checked Unit := do
  failIf (state.primitiveOrdinal ≠ ordinal ∨ state.primitiveOrdinal ≠ identity.primitiveOrdinal
      ∨ state.conreyNumber ≠ identity.conreyNumber ∨ state.parity.val ≠ identity.parity)
    "compact state character identity differs"
  state.validate
  failIf (state.sampleCount ≠ context.samples)
    "compact state per-character sample coverage differs"
  let span ← state.span
  failIf (context.samples ≠ 0
      ∧ span ≠ some (context.firstTNumerator, context.stopTNumerator))
    "compact state per-character exact grid span differs"
  let numerators ← boundaryNumerators state
  failIf (∃ numerator ∈ numerators, numerator < context.firstTNumerator
      ∨ numerator ≥ context.stopTNumerator
      ∨ (numerator - context.firstTNumerator) % SOURCE_SAMPLE_NUMERATOR ≠ 0)
    "compact state boundary is outside the source grid"

/-- The loop over the roster, with its running totals. -/
def checkCharacters (context : CompactContext) : Int → Int → Int →
    List (CharacterRecord × RosterIdentity) → Checked (Int × Int)
  | _, brackets, ambiguities, [] => pure (brackets, ambiguities)
  | ordinal, brackets, ambiguities, (state, identity) :: rest => do
      checkCharacter context ordinal state identity
      failIf (brackets + state.bracketCount > MAX_EVENT_COUNT
          ∨ ambiguities + state.ambiguityCount > MAX_EVENT_COUNT)
        "compact state roster totals overflow uint64"
      checkCharacters context (ordinal + 1) (brackets + state.bracketCount)
        (ambiguities + state.ambiguityCount) rest

def checkTotals (value : CompactState) (brackets ambiguities : Int) : Checked Unit := do
  requireInteger "compact state internal sign changes" value.internalSignChangeCount 0
  requireInteger "compact state cross-boundary sign changes" value.crossBoundarySignChangeCount 0
  requireInteger "compact state sign-change lower bound" value.signChangeLowerBound 0
  requireInteger "compact state ambiguity samples" value.ambiguitySampleCount 0
  failIf (value.internalSignChangeCount > MAX_EVENT_COUNT
      ∨ value.crossBoundarySignChangeCount > MAX_EVENT_COUNT
      ∨ value.signChangeLowerBound > MAX_EVENT_COUNT
      ∨ value.ambiguitySampleCount > MAX_EVENT_COUNT
      ∨ value.internalSignChangeCount + value.crossBoundarySignChangeCount
        ≠ value.signChangeLowerBound
      ∨ brackets ≠ value.signChangeLowerBound ∨ ambiguities ≠ value.ambiguitySampleCount)
    "compact state sign or ambiguity totals differ"

def checkCommitment (value : CompactState) : Checked Unit := do
  requireInteger "compact state leaf event-summary count" value.leafEventSummaryCount 1
  let commitment := value.leafEventSummaryCommitment
  failIf (value.leafEventSummaryCount > MAX_EVENT_COUNT
      ∨ commitment.modulusHex ≠ hex64 ROLLING_MODULUS ∨ commitment.baseHex ≠ hex64 ROLLING_BASE
      ∨ commitment.leafCount.val ≠ value.leafEventSummaryCount
      ∨ commitment.combination ≠ COMBINATION)
    "compact state leaf commitment parameters differ"
  failIf (commitment.valueHex.length ≠ 64
      ∨ (commitment.valueHex.all fun c => (hexDigitOf c).isSome) = false
      ∨ hexValue commitment.valueHex ≥ ROLLING_MODULUS)
    "compact state leaf commitment value differs"

/-- What `validate_compact_state_summary` returns. -/
structure Summary where
  q : Int
  signChanges : Int
  ambiguities : Int
  leafCount : Int
  deriving DecidableEq, Repr

/-- `validate_compact_state_summary` -/
def validate (roster : Roster) (value : CompactState) : Checked Summary := do
  value.checkIdentity
  checkContext value.context
  let identities ← roster value.context.q
  failIf ((value.characterStates.length : Int) ≠ value.context.primitiveCharacterCount
      ∨ (identities.length : Int) ≠ value.context.primitiveCharacterCount)
    "compact state character-state roster differs"
  let (brackets, ambiguities) ←
    checkCharacters value.context 0 0 0 (value.characterStates.zip identities)
  value.checkTotals brackets ambiguities
  value.checkCommitment
  pure ⟨value.context.q, value.signChangeLowerBound, value.ambiguitySampleCount,
    value.leafEventSummaryCount⟩

/-! ## Combining -/

/-- The contexts are adjacent shards of one grid. -/
def adjacentContexts (left right : CompactContext) : Bool :=
  left.q = right.q && left.primitiveCharacterCount = right.primitiveCharacterCount
    && left.tDenominator = right.tDenominator && left.tStepNumerator = right.tStepNumerator
    && left.stopTNumerator = right.firstTNumerator

/-- The loop over both rosters: the merged records, and the number of new crossings. -/
def combineCharacters : List (CharacterRecord × CharacterRecord) →
    Checked (List CharacterRecord × Int)
  | [] => pure ([], 0)
  | (left, right) :: rest => do
      let merged ← left.combine right
      let inserted := merged.bracketCount - left.bracketCount - right.bracketCount
      failIf (¬ (inserted = 0 ∨ inserted = 1))
        "compact state cross-boundary bracket arithmetic differs"
      let (states, crossings) ← combineCharacters rest
      pure (merged :: states, inserted + crossings)

/-- The context of both shards. -/
def joinContexts (left right : CompactContext) : CompactContext where
  q := left.q
  primitiveCharacterCount := left.primitiveCharacterCount
  frameCount := left.frameCount + right.frameCount
  firstTNumerator := left.firstTNumerator
  stopTNumerator := right.stopTNumerator
  tDenominator := left.tDenominator
  tStepNumerator := left.tStepNumerator

/-- `combine_compact_state_summaries` -/
def combine (roster : Roster) (left right : CompactState) : Checked CompactState := do
  let leftSummary ← left.validate roster
  let rightSummary ← right.validate roster
  failIf (adjacentContexts left.context right.context = false)
    "compact states are not adjacent shards of one fixed-q grid"
  let (states, crossings) ← combineCharacters (left.characterStates.zip right.characterStates)
  let (leafCount, commitment) ← combineAssociativeEventCommitments
    leftSummary.leafCount (hexValue left.leafEventSummaryCommitment.valueHex)
    rightSummary.leafCount (hexValue right.leafEventSummaryCommitment.valueHex)
  let internal := left.internalSignChangeCount + right.internalSignChangeCount
  let cross :=
    left.crossBoundarySignChangeCount + right.crossBoundarySignChangeCount + crossings
  let ambiguities := leftSummary.ambiguities + rightSummary.ambiguities
  let signChanges := leftSummary.signChanges + rightSummary.signChanges + crossings
  failIf (internal > MAX_EVENT_COUNT ∨ cross > MAX_EVENT_COUNT ∨ ambiguities > MAX_EVENT_COUNT
      ∨ signChanges > MAX_EVENT_COUNT)
    "combined compact state totals overflow uint64"
  let body ← compactStateBody (joinContexts left.context right.context) states leafCount
    commitment internal cross ambiguities
  let result ← body.sealState
  let summary ← result.validate roster
  failIf (summary ≠ ⟨left.context.q, signChanges, ambiguities,
      leftSummary.leafCount + rightSummary.leafCount⟩)
    "combined compact state validation differs"
  pure result

end CompactState

end AttestedCompute.Dirichlet
