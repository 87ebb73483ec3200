import AttestedCompute.Lib.Fallible
import AttestedCompute.Lib.Json

/-!
# The sign scan of one character

The per-character state of `tg_verifier/dirichlet_stream_zero_consumer.py`. A scan sees
one sign for each ordinate of an exact grid: positive, negative, or zero when the interval
is ambiguous. Its record keeps the counts, the maximal ambiguity ranges, and a bracket for
every sign change between two determinate ordinates in a row. Records of adjacent chunks
are merged without the samples.

A record is a JSON object. Its fields have the types that the validator insists on; where
the validator only compares a field with small integers, a Python truth value passes too,
and the field is a `PyInt`.
-/

namespace AttestedCompute.Dirichlet

open Fallible

/-- A Python integer, or a truth value that compares like one. -/
inductive PyInt where
  | int (n : Int)
  | bool (b : Bool)
  deriving DecidableEq, Repr

namespace PyInt

/-- What `==` compares. -/
def val : PyInt → Int
  | int n => n
  | bool b => if b then 1 else 0

/-- What `json.dumps` prints. -/
def toJson : PyInt → Json
  | int n => .int n
  | bool b => .bool b

/-- The integer it equals. -/
def plain (p : PyInt) : PyInt := int p.val

@[simp] theorem val_int (n : Int) : (int n).val = n := rfl

@[simp] theorem val_plain (p : PyInt) : p.plain.val = p.val := rfl

end PyInt

/-- The exceptions of the scan states. -/
inductive DirichletStreamConsumerError where
  | failed (message : String)
  /-- `AssertionError` -/
  | assertion
  /-- An exception of the JSON codec. -/
  | json (fault : Json.Fault)
  deriving DecidableEq, Repr

abbrev Checked := Except DirichletStreamConsumerError

/-- `if condition: _fail(message)` -/
def failIf (condition : Prop) [Decidable condition] (message : String) : Checked Unit :=
  refuseIf condition (.failed message)

theorem failIf_ok {condition : Prop} [Decidable condition] {message : String} {u : Unit} :
    failIf condition message = .ok u ↔ ¬ condition := refuseIf_ok

def MAX_EVENT_COUNT : Int := 2 ^ 64 - 1

def SOURCE_SAMPLE_NUMERATOR : Int := 5

def SOURCE_SAMPLE_DENOMINATOR : Int := 64

structure AmbiguityRange where
  firstTNumerator : Int
  stopTNumerator : Int
  deriving DecidableEq, Repr

structure BracketRecord where
  lowerTNumerator : Int
  upperTNumerator : Int
  lowerSign : PyInt
  upperSign : PyInt
  interveningAmbiguityCount : Int
  deriving DecidableEq, Repr

/-- The record of one chunk of one character. -/
@[ext]
structure CharacterRecord where
  conreyNumber : Int
  primitiveOrdinal : Int
  parity : PyInt
  sampleCount : Int
  firstDeterminateNumerator : Option Int
  firstSign : PyInt
  lastDeterminateNumerator : Option Int
  lastSign : PyInt
  leadingAmbiguityCount : Int
  trailingAmbiguityCount : Int
  ambiguityCount : Int
  positiveCount : Int
  negativeCount : Int
  bracketCount : Int
  multiplicityLowerBoundSum : Int
  ambiguityRanges : List AmbiguityRange
  bracketRecords : List BracketRecord
  deriving DecidableEq, Repr

/-! ## Scanning -/

structure CharacterChunkState where
  conreyNumber : Int
  primitiveOrdinal : Int
  parity : Int
  sampleCount : Int := 0
  firstDeterminateNumerator : Option Int := none
  firstSign : Int := 0
  lastDeterminateNumerator : Option Int := none
  lastSign : Int := 0
  leadingAmbiguityCount : Int := 0
  trailingAmbiguityCount : Int := 0
  ambiguityCount : Int := 0
  positiveCount : Int := 0
  negativeCount : Int := 0
  bracketCount : Int := 0
  ambiguityRanges : List AmbiguityRange := []
  bracketRecords : List BracketRecord := []
  openAmbiguityStart : Option Int := none
  previousNumerator : Option Int := none
  deriving DecidableEq, Repr

namespace CharacterChunkState

/-- The guards of `observe` on the ordinate. -/
def checkOrdinate (s : CharacterChunkState) (ordinate : Int) : Checked Unit := do
  failIf (¬ (0 ≤ ordinate ∧ ordinate ≤ MAX_EVENT_COUNT))
    "character ordinate numerator is outside uint64"
  failIf (∃ previous ∈ s.previousNumerator, ordinate ≠ previous + SOURCE_SAMPLE_NUMERATOR)
    "character samples are not consecutive on the exact grid"
  failIf (s.sampleCount ≥ MAX_EVENT_COUNT) "character sample count overflows uint64"

/-- An ambiguous sample. -/
def observeAmbiguous (s : CharacterChunkState) (ordinate : Int) : CharacterChunkState :=
  { s with
    openAmbiguityStart := some (s.openAmbiguityStart.getD ordinate)
    ambiguityCount := s.ambiguityCount + 1
    trailingAmbiguityCount := s.trailingAmbiguityCount + 1
    leadingAmbiguityCount :=
      if s.firstDeterminateNumerator = none then s.leadingAmbiguityCount + 1
      else s.leadingAmbiguityCount
    previousNumerator := some ordinate }

/-- The range that a determinate sample closes. -/
def closedRange (s : CharacterChunkState) (stop : Int) : List AmbiguityRange :=
  match s.openAmbiguityStart with
  | none => []
  | some start => [⟨start, stop⟩]

/-- The bracket that a determinate sample completes. -/
def newBracket (s : CharacterChunkState) (ordinate sign : Int) : List BracketRecord :=
  match s.lastDeterminateNumerator with
  | none => []
  | some last =>
      if s.lastSign ≠ sign then
        [{ lowerTNumerator := last
           upperTNumerator := ordinate
           lowerSign := .int s.lastSign
           upperSign := .int sign
           interveningAmbiguityCount := s.trailingAmbiguityCount }]
      else []

/-- A sample of sign one or minus one. -/
def observeDeterminate (s : CharacterChunkState) (ordinate sign : Int) : CharacterChunkState :=
  { s with
    ambiguityRanges := s.ambiguityRanges ++ s.closedRange ordinate
    openAmbiguityStart := none
    positiveCount := if sign > 0 then s.positiveCount + 1 else s.positiveCount
    negativeCount := if sign > 0 then s.negativeCount else s.negativeCount + 1
    firstDeterminateNumerator := some (s.firstDeterminateNumerator.getD ordinate)
    firstSign := if s.firstDeterminateNumerator = none then sign else s.firstSign
    bracketCount := s.bracketCount + (s.newBracket ordinate sign).length
    bracketRecords := s.bracketRecords ++ s.newBracket ordinate sign
    lastDeterminateNumerator := some ordinate
    lastSign := sign
    trailingAmbiguityCount := 0
    previousNumerator := some ordinate }

def observe (s : CharacterChunkState) (ordinate sign : Int) : Checked CharacterChunkState := do
  s.checkOrdinate ordinate
  let counted := { s with sampleCount := s.sampleCount + 1 }
  if sign = 0 then pure (counted.observeAmbiguous ordinate)
  else do
    failIf (¬ (sign = -1 ∨ sign = 1)) "character sign state is outside {-1,0,1}"
    pure (counted.observeDeterminate ordinate sign)

/-- The range still open when the record is taken. -/
def openRange (s : CharacterChunkState) : Checked (List AmbiguityRange) :=
  match s.openAmbiguityStart with
  | none => pure []
  | some start =>
      match s.previousNumerator with
      | none => .error .assertion
      | some previous => do
          failIf (previous > MAX_EVENT_COUNT - SOURCE_SAMPLE_NUMERATOR)
            "character ambiguity range endpoint overflows uint64"
          pure [⟨start, previous + SOURCE_SAMPLE_NUMERATOR⟩]

/-- The record of a state with the given range still open. -/
def recordWith (s : CharacterChunkState) (openRange : List AmbiguityRange) : CharacterRecord where
  conreyNumber := s.conreyNumber
  primitiveOrdinal := s.primitiveOrdinal
  parity := .int s.parity
  sampleCount := s.sampleCount
  firstDeterminateNumerator := s.firstDeterminateNumerator
  firstSign := .int s.firstSign
  lastDeterminateNumerator := s.lastDeterminateNumerator
  lastSign := .int s.lastSign
  leadingAmbiguityCount := s.leadingAmbiguityCount
  trailingAmbiguityCount := s.trailingAmbiguityCount
  ambiguityCount := s.ambiguityCount
  positiveCount := s.positiveCount
  negativeCount := s.negativeCount
  bracketCount := s.bracketCount
  multiplicityLowerBoundSum := s.bracketCount
  ambiguityRanges := s.ambiguityRanges ++ openRange
  bracketRecords := s.bracketRecords

end CharacterChunkState

/-! ## Validation -/

namespace CharacterRecord

/-- `_character_chunk_span` -/
def span (value : CharacterRecord) : Checked (Option (Int × Int)) :=
  if value.sampleCount = 0 then pure none
  else
    match value.firstDeterminateNumerator with
    | none =>
        match value.ambiguityRanges with
        | [range] => pure (some (range.firstTNumerator, range.stopTNumerator))
        | _ => .error (.failed "all-ambiguous character must have one maximal range")
    | some first =>
        match value.lastDeterminateNumerator with
        | none => .error .assertion
        | some last => do
            let leadingWidth := value.leadingAmbiguityCount * SOURCE_SAMPLE_NUMERATOR
            let trailingWidth := (value.trailingAmbiguityCount + 1) * SOURCE_SAMPLE_NUMERATOR
            failIf (first < leadingWidth ∨ last > MAX_EVENT_COUNT - trailingWidth)
              "character chunk grid span overflows uint64"
            pure (some (first - leadingWidth, last + trailingWidth))

def determinate (value : CharacterRecord) : Int := value.positiveCount + value.negativeCount

/-- `0 <= count <= MAX_EVENT_COUNT` -/
def isUint64 (count : Int) : Bool := 0 ≤ count && count ≤ MAX_EVENT_COUNT

/-- `value in (-1, 1)` -/
def isSign (sign : PyInt) : Bool := sign.val = -1 || sign.val = 1

def counters (value : CharacterRecord) : List Int := [
  value.sampleCount, value.leadingAmbiguityCount, value.trailingAmbiguityCount,
  value.ambiguityCount, value.positiveCount, value.negativeCount, value.bracketCount,
  value.multiplicityLowerBoundSum]

def checkIdentity (value : CharacterRecord) : Checked Unit := do
  failIf (value.conreyNumber < 0) "conrey_number must be at least 0"
  failIf (value.primitiveOrdinal < 0) "primitive_ordinal must be at least 0"
  failIf (¬ (value.parity.val = 0 ∨ value.parity.val = 1)) "character chunk parity differs"

def checkCounters (value : CharacterRecord) : Checked Unit := do
  failIf (value.counters.all isUint64 = false) "character chunk counter is outside uint64"
  failIf (value.sampleCount ≠ value.ambiguityCount + value.determinate
      ∨ value.multiplicityLowerBoundSum ≠ value.bracketCount
      ∨ value.leadingAmbiguityCount > value.ambiguityCount
      ∨ value.trailingAmbiguityCount > value.ambiguityCount
      ∨ value.bracketCount > max 0 (value.determinate - 1))
    "character chunk counter arithmetic differs"
  failIf ((value.ambiguityRanges.length : Int) > value.ambiguityCount
      ∨ (value.bracketRecords.length : Int) ≠ value.bracketCount)
    "character sparse record counts differ"

def checkBoundary (value : CharacterRecord) : Checked Unit :=
  match value.firstDeterminateNumerator with
  | none =>
      failIf (value.lastDeterminateNumerator ≠ none ∨ value.firstSign.val ≠ 0
          ∨ value.lastSign.val ≠ 0 ∨ value.determinate ≠ 0 ∨ value.bracketCount ≠ 0
          ∨ value.leadingAmbiguityCount ≠ value.ambiguityCount
          ∨ value.trailingAmbiguityCount ≠ value.ambiguityCount)
        "all-ambiguous character chunk state differs"
  | some first =>
      failIf ((∀ last ∈ value.lastDeterminateNumerator, first > last)
          ∨ isSign value.firstSign = false ∨ isSign value.lastSign = false
          ∨ value.determinate = 0)
        "determinate character chunk boundary state differs"

def checkEmpty (value : CharacterRecord) : Checked Unit :=
  failIf (value.firstDeterminateNumerator ≠ none ∨ value.lastDeterminateNumerator ≠ none
      ∨ value.ambiguityCount ≠ 0 ∨ value.determinate ≠ 0 ∨ value.ambiguityRanges ≠ []
      ∨ value.bracketRecords ≠ [])
    "empty character chunk state differs"

/-- An ordinate on the grid of the span. -/
def onGrid (spanFirst numerator : Int) : Bool := (numerator - spanFirst) % SOURCE_SAMPLE_NUMERATOR = 0

def checkRange (spanFirst spanStop : Int) (previousStop : Option Int) (range : AmbiguityRange) :
    Checked Unit := do
  failIf (¬ (isUint64 range.firstTNumerator ∧ onGrid spanFirst range.firstTNumerator))
    "character ambiguity range first is outside the exact grid"
  failIf (¬ (isUint64 range.stopTNumerator ∧ onGrid spanFirst range.stopTNumerator))
    "character ambiguity range stop is outside the exact grid"
  failIf (range.firstTNumerator < spanFirst ∨ range.stopTNumerator > spanStop
      ∨ range.firstTNumerator ≥ range.stopTNumerator
      ∨ onGrid range.firstTNumerator range.stopTNumerator = false
      ∨ ∃ stop ∈ previousStop, range.firstTNumerator ≤ stop)
    "character ambiguity ranges are not ordered maximal ranges"

/-- The number of samples in a range. -/
def rangeCount (range : AmbiguityRange) : Int :=
  (range.stopTNumerator - range.firstTNumerator) / SOURCE_SAMPLE_NUMERATOR

/-- The loop over the ranges, with its running sample count. The first range, and only that
one, has no range before it. -/
def checkRanges (value : CharacterRecord) (spanFirst spanStop : Int) :
    Option Int → Int → List AmbiguityRange → Checked Int
  | _, total, [] => pure total
  | previousStop, total, range :: rest => do
      checkRange spanFirst spanStop previousStop range
      failIf (total + rangeCount range > MAX_EVENT_COUNT)
        "character ambiguity ranges overflow uint64"
      failIf (previousStop = none ∧ value.leadingAmbiguityCount ≠ 0
          ∧ (range.firstTNumerator ≠ spanFirst ∨ range.stopTNumerator
            ≠ spanFirst + value.leadingAmbiguityCount * SOURCE_SAMPLE_NUMERATOR))
        "character leading ambiguity range differs"
      checkRanges value spanFirst spanStop (some range.stopTNumerator) (total + rangeCount range) rest

def checkLeading (value : CharacterRecord) (spanFirst : Int) : Checked Unit :=
  if value.leadingAmbiguityCount = 0 then
    failIf (∃ range ∈ value.ambiguityRanges.head?, range.firstTNumerator = spanFirst)
      "character leading ambiguity boundary count differs"
  else failIf (value.ambiguityRanges = []) "character leading ambiguity range is absent"

def checkTrailing (value : CharacterRecord) (spanStop : Int) : Checked Unit :=
  if value.trailingAmbiguityCount = 0 then
    failIf (∃ range ∈ value.ambiguityRanges.getLast?, range.stopTNumerator = spanStop)
      "character trailing ambiguity boundary count differs"
  else
    failIf (∀ range ∈ value.ambiguityRanges.getLast?, range.stopTNumerator ≠ spanStop
        ∨ range.firstTNumerator
          ≠ spanStop - value.trailingAmbiguityCount * SOURCE_SAMPLE_NUMERATOR)
      "character trailing ambiguity range differs"

/-- `dict[key]` -/
def lookup (signs : List (Int × Int)) (key : Int) : Option Int := signs.lookup key

/-- `dict[key] = sign` -/
def assign (signs : List (Int × Int)) (key sign : Int) : List (Int × Int) :=
  (key, sign) :: signs.filter fun entry => entry.1 ≠ key

/-- Record the sign of an endpoint, unless another one is on record. -/
def recordSign (signs : List (Int × Int)) (key sign : Int) (message : String) :
    Checked (List (Int × Int)) := do
  failIf (∃ known ∈ lookup signs key, known ≠ sign) message
  pure (assign signs key sign)

def boundarySigns (value : CharacterRecord) : Checked (List (Int × Int)) :=
  match value.firstDeterminateNumerator, value.lastDeterminateNumerator with
  | some first, some last =>
      recordSign (assign [] first value.firstSign.val) last value.lastSign.val
        "character determinate boundary signs conflict"
  | some _, none => .error .assertion
  | none, _ => pure []

/-- The ordinate is marked ambiguous. -/
def inRange (value : CharacterRecord) (numerator : Int) : Bool :=
  value.ambiguityRanges.any fun range =>
    range.firstTNumerator ≤ numerator && numerator < range.stopTNumerator

def recordEndpoint (value : CharacterRecord) (signs : List (Int × Int)) (endpoint sign : Int) :
    Checked (List (Int × Int)) := do
  failIf (value.inRange endpoint = true) "character bracket endpoint is marked ambiguous"
  recordSign signs endpoint sign "character bracket endpoint signs conflict"

/-- What is compared with the bracket before: its upper end and its upper sign. -/
def checkBracket (spanFirst spanStop : Int) (previous : Option (Int × Int))
    (bracket : BracketRecord) : Checked Unit := do
  failIf (¬ (spanFirst ≤ bracket.lowerTNumerator ∧ bracket.lowerTNumerator < spanStop
      ∧ onGrid spanFirst bracket.lowerTNumerator))
    "character bracket lower is outside the exact grid"
  failIf (¬ (spanFirst ≤ bracket.upperTNumerator ∧ bracket.upperTNumerator < spanStop
      ∧ onGrid spanFirst bracket.upperTNumerator))
    "character bracket upper is outside the exact grid"
  failIf (isSign bracket.lowerSign = false ∨ isSign bracket.upperSign = false
      ∨ bracket.lowerSign.val = bracket.upperSign.val
      ∨ isUint64 bracket.interveningAmbiguityCount = false)
    "character bracket sign or ambiguity count differs"
  failIf (bracket.lowerTNumerator ≥ bracket.upperTNumerator
      ∨ onGrid bracket.lowerTNumerator bracket.upperTNumerator = false
      ∨ bracket.interveningAmbiguityCount
        ≠ (bracket.upperTNumerator - bracket.lowerTNumerator) / SOURCE_SAMPLE_NUMERATOR - 1
      ∨ (∃ upper ∈ previous, bracket.lowerTNumerator < upper.1)
      ∨ ∃ upper ∈ previous, bracket.lowerSign.val ≠ upper.2)
    "character brackets are reordered or not consecutive signs"

/-- The ambiguous samples between the ends of a bracket are one maximal range. -/
def checkBetween (value : CharacterRecord) (bracket : BracketRecord) : Checked Unit :=
  if bracket.interveningAmbiguityCount ≠ 0 then
    failIf (⟨bracket.lowerTNumerator + SOURCE_SAMPLE_NUMERATOR, bracket.upperTNumerator⟩
        ∉ value.ambiguityRanges)
      "character bracket ambiguity interval differs"
  else
    failIf (bracket.upperTNumerator ≠ bracket.lowerTNumerator + SOURCE_SAMPLE_NUMERATOR)
      "character adjacent bracket span differs"

/-- The loop over the brackets. The first bracket, and only that one, has none before it. -/
def checkBrackets (value : CharacterRecord) (spanFirst spanStop : Int) :
    Option (Int × Int) → List (Int × Int) → List BracketRecord → Checked (List (Int × Int))
  | _, signs, [] => pure signs
  | previous, signs, bracket :: rest => do
      checkBracket spanFirst spanStop previous bracket
      let signs ← recordEndpoint value signs bracket.lowerTNumerator bracket.lowerSign.val
      let signs ← recordEndpoint value signs bracket.upperTNumerator bracket.upperSign.val
      checkBetween value bracket
      failIf (previous = none ∧ bracket.lowerSign.val ≠ value.firstSign.val)
        "character first bracket sign differs"
      checkBrackets value spanFirst spanStop
        (some (bracket.upperTNumerator, bracket.upperSign.val)) signs rest

/-- The checks on a record with samples. -/
def checkSamples (value : CharacterRecord) (spanFirst spanStop : Int) : Checked Unit := do
  failIf (spanStop - spanFirst ≠ value.sampleCount * SOURCE_SAMPLE_NUMERATOR
      ∨ spanStop > MAX_EVENT_COUNT)
    "character chunk exact grid span differs"
  let total ← checkRanges value spanFirst spanStop none 0 value.ambiguityRanges
  failIf (total ≠ value.ambiguityCount) "character ambiguity range sample count differs"
  checkLeading value spanFirst
  checkTrailing value spanStop
  let signs ← boundarySigns value
  let signs ← checkBrackets value spanFirst spanStop none signs value.bracketRecords
  failIf (∃ bracket ∈ value.bracketRecords.getLast?, bracket.upperSign.val ≠ value.lastSign.val)
    "character last bracket sign differs"
  failIf ((signs.countP fun entry => entry.2 > 0 : Int) > value.positiveCount
      ∨ (signs.countP fun entry => entry.2 < 0 : Int) > value.negativeCount)
    "character bracket endpoints exceed determinate sign counts"

/-- `_validate_character_chunk_record` -/
def validate (value : CharacterRecord) : Checked Unit := do
  value.checkIdentity
  value.checkCounters
  value.checkBoundary
  match ← value.span with
  | none => value.checkEmpty
  | some (spanFirst, spanStop) => value.checkSamples spanFirst spanStop

end CharacterRecord

/-- `_CharacterChunkState.record` -/
def CharacterChunkState.record (s : CharacterChunkState) : Checked CharacterRecord := do
  let openRange ← s.openRange
  (s.recordWith openRange).validate
  pure (s.recordWith openRange)

/-! ## Merging -/

namespace CharacterRecord

/-- Two lists of maximal ranges in a row. -/
def joinRanges (left right : List AmbiguityRange) : List AmbiguityRange :=
  match left.getLast?, right with
  | some last, head :: rest =>
      if last.stopTNumerator = head.firstTNumerator then
        left.dropLast ++ ⟨last.firstTNumerator, head.stopTNumerator⟩ :: rest
      else left ++ head :: rest
  | _, _ => left ++ right

/-- The chunks have determinate samples whose signs differ across the cut. -/
def crosses (left right : CharacterRecord) : Bool :=
  left.firstDeterminateNumerator.isSome && right.firstDeterminateNumerator.isSome
    && left.lastSign.val ≠ right.firstSign.val

/-- The bracket across the cut. -/
def crossing (left right : CharacterRecord) : List BracketRecord :=
  if crosses left right then
    [{ lowerTNumerator := left.lastDeterminateNumerator.getD 0
       upperTNumerator := right.firstDeterminateNumerator.getD 0
       lowerSign := left.lastSign
       upperSign := right.firstSign
       interveningAmbiguityCount :=
        left.trailingAmbiguityCount + right.leadingAmbiguityCount }]
  else []

/-- The merged record, before any check. -/
def merge (left right : CharacterRecord) : CharacterRecord :=
  let leftHas := left.firstDeterminateNumerator.isSome
  let rightHas := right.firstDeterminateNumerator.isSome
  let bracketCount :=
    left.bracketCount + right.bracketCount + if crosses left right then 1 else 0
  { conreyNumber := left.conreyNumber
    primitiveOrdinal := left.primitiveOrdinal
    parity := left.parity
    sampleCount := left.sampleCount + right.sampleCount
    firstDeterminateNumerator :=
      if leftHas then left.firstDeterminateNumerator else right.firstDeterminateNumerator
    firstSign := if leftHas then left.firstSign else right.firstSign
    lastDeterminateNumerator :=
      if rightHas then right.lastDeterminateNumerator else left.lastDeterminateNumerator
    lastSign := if rightHas then right.lastSign else left.lastSign
    leadingAmbiguityCount :=
      left.leadingAmbiguityCount + if leftHas then 0 else right.leadingAmbiguityCount
    trailingAmbiguityCount :=
      right.trailingAmbiguityCount + if rightHas then 0 else left.trailingAmbiguityCount
    ambiguityCount := left.ambiguityCount + right.ambiguityCount
    positiveCount := left.positiveCount + right.positiveCount
    negativeCount := left.negativeCount + right.negativeCount
    bracketCount := bracketCount
    multiplicityLowerBoundSum := bracketCount
    ambiguityRanges := joinRanges left.ambiguityRanges right.ambiguityRanges
    bracketRecords := left.bracketRecords ++ crossing left right ++ right.bracketRecords }

/-- The chunks are next to each other, as far as both have samples. -/
def adjacent (leftSpan rightSpan : Option (Int × Int)) : Bool :=
  match leftSpan, rightSpan with
  | some left, some right => left.2 = right.1
  | _, _ => true

/-- `combine_character_chunk_states` -/
def combine (left right : CharacterRecord) : Checked CharacterRecord := do
  left.validate
  right.validate
  failIf (left.conreyNumber ≠ right.conreyNumber ∨ left.primitiveOrdinal ≠ right.primitiveOrdinal
      ∨ left.parity.val ≠ right.parity.val)
    "character chunk identities differ"
  let leftSpan ← left.span
  let rightSpan ← right.span
  failIf (adjacent leftSpan rightSpan = false) "character chunks are not adjacent on the exact grid"
  let merged := merge left right
  failIf (merged.sampleCount > MAX_EVENT_COUNT ∨ merged.ambiguityCount > MAX_EVENT_COUNT
      ∨ merged.positiveCount > MAX_EVENT_COUNT ∨ merged.negativeCount > MAX_EVENT_COUNT
      ∨ merged.bracketCount > MAX_EVENT_COUNT)
    "combined character chunk counter overflows uint64"
  failIf (merged.sampleCount
      ≠ merged.ambiguityCount + merged.positiveCount + merged.negativeCount)
    "combined character sample partition differs"
  failIf (merged.leadingAmbiguityCount > MAX_EVENT_COUNT
      ∨ merged.trailingAmbiguityCount > MAX_EVENT_COUNT)
    "combined character ambiguity boundary overflows uint64"
  failIf (crosses left right
      ∧ left.trailingAmbiguityCount + right.leadingAmbiguityCount > MAX_EVENT_COUNT)
    "combined bracket ambiguity count overflows uint64"
  merged.validate
  pure merged

end CharacterRecord

end AttestedCompute.Dirichlet
