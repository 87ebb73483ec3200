import AttestedCompute.CompactV3.Normalize
import AttestedCompute.Lib.BitRecords
import AttestedCompute.Lib.PackedStruct
import AttestedCompute.Lib.Sha256

/-!
# Pages of the v3 format

A page holds up to 4096 normalized states: one dense record of flags and transition count for each
state, packed bit by bit, and after them one sparse row for each state that has ranges or debug
brackets. `pageBytes` is the writer of a page, `decodePage` the reader of its payload.
-/

namespace AttestedCompute.CompactV3

open Fallible PackedStruct BitWords

abbrev SPARSE_ROW_HEADER : Format := [.unsigned 4, .unsigned 4]

abbrev AMBIGUITY_RANGE_RECORD : Format := [.unsigned 8, .unsigned 8]

/-- `"<QQbb6xQ"` -/
abbrev DEBUG_BRACKET_RECORD : Format :=
  [.unsigned 8, .unsigned 8, .signed 1, .signed 1, .pad 6, .unsigned 8]

/-- `"<QIIQQQQQ"` -/
abbrev PAGE_PREFIX : Format :=
  [.unsigned 8, .unsigned 4, .unsigned 4, .unsigned 8, .unsigned 8, .unsigned 8, .unsigned 8,
    .unsigned 8]

/-- `"<QIIQQQQQ32s"` -/
abbrev PAGE_HEADER : Format :=
  [.unsigned 8, .unsigned 4, .unsigned 4, .unsigned 8, .unsigned 8, .unsigned 8, .unsigned 8,
    .unsigned 8, .raw 32]

def PAGE_DOMAIN : Bytes :=
  ("sparkinterval/tg/dirichlet-compact-state-v3/page".toList.map fun c => UInt8.ofNat c.toNat) ++ [0]

def structPack (format : Format) (record : Record format) : Checked Bytes :=
  packOr .struct format record

theorem structPack_ok {format : Format} {record : Record format} {bytes : Bytes} :
    structPack format record = .ok bytes ↔ pack format record = some bytes := packOr_ok

/-- `transition_count_width` -/
def transitionCountWidth (samples : Int) : Nat := max 1 (samples - 1).toNat.size

/-- `_packed_bytes` -/
def packedBytes (recordCount recordWidth : Nat) : Nat := (recordCount * recordWidth + 7) / 8

/-- `_check_padding` -/
def checkPadding (raw : Bytes) (usedBits : Nat) : Checked Unit := do
  failIf (8 * raw.length < usedBits) "v3 packed page bit accounting differs"
  failIf (usedBits % 8 ≠ 0 ∧ ∃ last ∈ raw.getLast?, last.toNat >>> (usedBits % 8) ≠ 0)
    "v3 packed page has nonzero unused padding bits"

/-- The totals of a page. -/
structure PageTotals where
  transitions : Int
  ambiguitySamples : Int
  ambiguityRanges : Int
  debugBrackets : Int
  deriving DecidableEq, Repr

/-- The totals over states. -/
def totalsOf (states : List CharacterState) : PageTotals where
  transitions := (states.map (·.internalSignChangeCount)).sum
  ambiguitySamples := (states.map (·.ambiguityCount)).sum
  ambiguityRanges := (states.map fun s => (s.ambiguityRanges.length : Int)).sum
  debugBrackets := (states.map fun s => (s.bracketRecords.length : Int)).sum

/-! ## The writer -/

def packRange (range : AmbiguityRange) : Checked Bytes :=
  structPack AMBIGUITY_RANGE_RECORD (range.firstTNumerator, range.stopTNumerator, ())

def packBracket (bracket : DebugBracket) : Checked Bytes :=
  structPack DEBUG_BRACKET_RECORD
    (bracket.lowerTNumerator, bracket.upperTNumerator, bracket.lowerSign, bracket.upperSign,
      bracket.interveningAmbiguityCount, ())

/-- The records of a list, one after the other. -/
def packAll {α : Type} (packOne : α → Checked Bytes) : List α → Checked Bytes
  | [] => pure []
  | x :: xs => do
      let first ← packOne x
      let rest ← packAll packOne xs
      pure (first ++ rest)

/-- The sparse row of a state. -/
def sparseRow (ranges : List AmbiguityRange) (brackets : List DebugBracket) : Checked Bytes := do
  failIf (2 ^ 32 - 1 < ranges.length ∨ 2 ^ 32 - 1 < brackets.length)
    "v3 sparse row count exceeds uint32"
  let header ← structPack SPARSE_ROW_HEADER (ranges.length, brackets.length, ())
  let rangeBytes ← packAll packRange ranges
  let bracketBytes ← packAll packBracket brackets
  pure (header ++ rangeBytes ++ bracketBytes)

/-- The state has a sparse row. -/
def CharacterState.hasSparse (s : CharacterState) : Bool :=
  s.ambiguityRanges ≠ [] || s.bracketRecords ≠ []

/-- The flags and the transition count of a state in one number. -/
def denseValue (s : CharacterState) : Nat :=
  let flags := s.firstDeterminateNumerator.isSome.toNat
    ||| (decide (0 < s.firstSign)).toNat <<< 1
    ||| (decide (0 < s.lastSign)).toNat <<< 2
    ||| s.hasSparse.toNat <<< 3
  flags ||| s.internalSignChangeCount.toNat <<< 4

/-- The sparse row of a state that has one. -/
def rowOf (s : CharacterState) : Checked Bytes :=
  if s.hasSparse then sparseRow s.ambiguityRanges s.bracketRecords else pure []

/-- What one state puts into a page: its dense record and its sparse row. -/
def encodeState (recordWidth : Nat) (s : CharacterState) : Checked (Nat × Bytes) := do
  failIf (s.internalSignChangeCount < 0 ∨ 2 ^ recordWidth ≤ denseValue s)
    "packed state value is outside its canonical bit width"
  let row ← rowOf s
  pure (denseValue s, row)

/-- The dense records of a page. -/
def densePart (recordWidth : Nat) (values : List Nat) : Bytes :=
  (packRecords 8 recordWidth values).map UInt8.ofNat

/-- The payload of a page. -/
def encodePayload (countWidth : Nat) (states : List CharacterState) : Checked Bytes := do
  let encoded ← states.mapM (encodeState (4 + countWidth))
  let packed := densePart (4 + countWidth) (encoded.map Prod.fst)
  checkPadding packed (states.length * (4 + countWidth))
  pure (packed ++ encoded.flatMap Prod.snd)

/-- `_page_bytes`, for states that are normalized: in production they have no bracket rows. -/
def pageBytes (countWidth ordinalStart maximumPagePayloadBytes : Nat) (states : List CharacterState) :
    Checked (Bytes × PageTotals) := do
  let payload ← encodePayload countWidth states
  failIf (maximumPagePayloadBytes < payload.length)
    "v3 page exceeds its externally supplied payload bound"
  let totals := totalsOf states
  let sparseCharacters := states.countP (·.hasSparse)
  let head ← structPack PAGE_PREFIX
    (ordinalStart, states.length, sparseCharacters, payload.length, totals.transitions,
      totals.ambiguitySamples, totals.ambiguityRanges, totals.debugBrackets, ())
  let header ← structPack PAGE_HEADER
    (ordinalStart, states.length, sparseCharacters, payload.length, totals.transitions,
      totals.ambiguitySamples, totals.ambiguityRanges, totals.debugBrackets,
      Sha256.digest (PAGE_DOMAIN ++ head ++ payload), ())
  pure (header ++ payload, totals)

/-! ## The reader -/

/-- A decoded dense record. -/
structure DenseRecord where
  hasDeterminate : Bool
  firstSign : Int
  lastSign : Int
  hasSparse : Bool
  transition : Nat
  deriving DecidableEq, Repr

/-- The dense record that a number holds. -/
def decodeDense (value : Nat) : Checked DenseRecord :=
  if value &&& 1 ≠ 0 then
    pure ⟨true, if value &&& 2 ≠ 0 then 1 else -1, if value &&& 4 ≠ 0 then 1 else -1,
      value &&& 8 ≠ 0, value >>> 4⟩
  else do
    failIf (value &&& 6 ≠ 0 ∨ value >>> 4 ≠ 0) "v3 absent-determinate record has sign or count bits"
    pure ⟨false, 0, 0, value &&& 8 ≠ 0, value >>> 4⟩

/-- The loop over the ranges of a row. -/
def decodeRanges (span : Span) : Nat → Option Int → Bytes → Checked (List AmbiguityRange × Bytes)
  | 0, _, bytes => pure ([], bytes)
  | count + 1, previousStop, bytes => do
      failIf (bytes.length < size AMBIGUITY_RANGE_RECORD) "truncated v3 ambiguity range"
      let (first, stop, _) := read AMBIGUITY_RANGE_RECORD (bytes.take (size AMBIGUITY_RANGE_RECORD))
      let (range, _) ← normalizeRange span previousStop ⟨first, stop⟩
      let (ranges, rest) ← decodeRanges span count (some range.stopTNumerator)
        (bytes.drop (size AMBIGUITY_RANGE_RECORD))
      pure (range :: ranges, rest)

/-- The loop over the brackets of a row. -/
def decodeBrackets (span : Span) (ranges : List AmbiguityRange) :
    Nat → Option DebugBracket → Bytes → Checked (List DebugBracket × Bytes)
  | 0, _, bytes => pure ([], bytes)
  | count + 1, previous, bytes => do
      failIf (bytes.length < size DEBUG_BRACKET_RECORD) "truncated v3 debug bracket"
      let (lower, upper, lowerSign, upperSign, intervening, _) :=
        read DEBUG_BRACKET_RECORD (bytes.take (size DEBUG_BRACKET_RECORD))
      let bracket ← normalizeDebugBracket span ranges previous
        ⟨lower, upper, lowerSign, upperSign, intervening⟩
      let (brackets, rest) ← decodeBrackets span ranges count (some bracket)
        (bytes.drop (size DEBUG_BRACKET_RECORD))
      pure (bracket :: brackets, rest)

/-- One sparse row. -/
def decodeRow (span : Span) (debug : Bool) (bytes : Bytes) :
    Checked ((List AmbiguityRange × List DebugBracket) × Bytes) := do
  failIf (bytes.length < size SPARSE_ROW_HEADER) "truncated v3 sparse row header"
  let (rangeCount, bracketCount, _) := read SPARSE_ROW_HEADER (bytes.take (size SPARSE_ROW_HEADER))
  failIf (debug = false ∧ bracketCount ≠ 0) "production v3 page contains debug bracket rows"
  let (ranges, rest) ← decodeRanges span rangeCount.toNat none
    (bytes.drop (size SPARSE_ROW_HEADER))
  let (brackets, rest) ← decodeBrackets span ranges bracketCount.toNat none rest
  pure ((ranges, brackets), rest)

/-- The sparse row at the front, for a state that has one. -/
def decodeSparse (span : Span) (debug hasSparse : Bool) (bytes : Bytes) :
    Checked ((List AmbiguityRange × List DebugBracket) × Bytes) :=
  if hasSparse then decodeRow span debug bytes else pure (([], []), bytes)

/-- The row that is normalized: the dense record, the sparse row and what they imply. -/
def rawState (span : Span) (identity : Identity) (dense : DenseRecord)
    (ranges : List AmbiguityRange) (brackets : List DebugBracket) : CharacterState where
  conreyNumber := identity.conreyNumber
  primitiveOrdinal := identity.primitiveOrdinal
  parity := identity.parity
  sampleCount := span.samples
  firstDeterminateNumerator := derivedFirst span ranges
  firstSign := dense.firstSign
  lastDeterminateNumerator := derivedLast span ranges
  lastSign := dense.lastSign
  leadingAmbiguityCount := leadingCount span.first ranges
  trailingAmbiguityCount := trailingCount span.stop ranges
  ambiguityCount := rangeSamples ranges
  internalSignChangeCount := dense.transition
  ambiguityRanges := ranges
  bracketRecords := brackets

/-- One state. -/
def decodeState (span : Span) (debug : Bool) (identity : Identity) (dense : DenseRecord)
    (bytes : Bytes) : Checked (CharacterState × Bytes) := do
  let ((ranges, brackets), rest) ← decodeSparse span debug dense.hasSparse bytes
  failIf (dense.hasSparse ≠ (ranges ≠ [] || brackets ≠ [])) "v3 sparse flag is noncanonical"
  failIf (dense.hasDeterminate ≠ decide (rangeSamples ranges < span.samples))
    "v3 determinate flag differs from its maximal ranges"
  let state ← normalizeState span debug identity (rawState span identity dense ranges brackets).raw
  pure (state, rest)

/-- The loop over the decoded dense records. -/
def decodeStates (span : Span) (debug : Bool) :
    List Identity → List DenseRecord → Bytes → Checked (List CharacterState × Bytes)
  | identity :: identities, dense :: records, bytes => do
      let (state, rest) ← decodeState span debug identity dense bytes
      let (states, rest) ← decodeStates span debug identities records rest
      pure (state :: states, rest)
  | _, _, bytes => pure ([], bytes)

/-- `_decode_page` for the characters of `identities`. -/
def decodePage (span : Span) (debug : Bool) (countWidth : Nat) (identities : List Identity)
    (sparseCharacterCount : Nat) (payload : Bytes) : Checked (List CharacterState × PageTotals) := do
  let recordWidth := 4 + countWidth
  let fixedBytes := packedBytes identities.length recordWidth
  failIf (payload.length < fixedBytes) "v3 page is shorter than its dense records"
  let packed := payload.take fixedBytes
  checkPadding packed (identities.length * recordWidth)
  let records ← ((List.range identities.length).map fun k =>
    getBits 8 (Bytes.nats packed) (k * recordWidth) recordWidth).mapM decodeDense
  failIf (records.countP (·.hasSparse) ≠ sparseCharacterCount)
    "v3 sparse flag rank differs from the page header"
  let (states, rest) ← decodeStates span debug identities records (payload.drop fixedBytes)
  failIf (rest ≠ []) "v3 page has a gap, overlap, or trailing payload"
  pure (states, totalsOf states)

end AttestedCompute.CompactV3
