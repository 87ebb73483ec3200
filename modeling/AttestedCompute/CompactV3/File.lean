import AttestedCompute.CompactV3.PageCanonical

/-!
# Files of the v3 format

A file is a header and the pages of the whole roster. `writeCompactState` is the writer from its
arguments to the bytes of the file (the temporary file, and the replay that the writer makes of its
own file before it returns, are left out), `iterCompactState` is the replay. The characters of a
modulus and the digest of their roster are those of another module and are taken as given.
-/

namespace AttestedCompute.CompactV3

open Fallible PackedStruct

/-- The primitive characters of every modulus, and `_roster_digest` of them. -/
structure RosterSource where
  identities : Int → List Identity
  digest : Int → Bytes
  length_digest : ∀ q, (digest q).length = 32

def asciiBytes (text : String) : Bytes := text.toList.map fun c => UInt8.ofNat c.toNat

def ARTIFACT_MAGIC : Bytes := asciiBytes "TGDCSB03"
def ARTIFACT_FORMAT_VERSION : Int := 3
def PRODUCTION_FLAG : Int := 1
def DEBUG_BRACKET_FLAG : Int := 2
def PAGE_CHARACTERS : Nat := 4096
def MAXIMUM_ARTIFACT_BYTES : Int := 4 * 1024 * 1024 * 1024
def MAXIMUM_PAGE_PAYLOAD_BYTES : Int := 256 * 1024 * 1024
def MAXIMUM_MODULUS : Int := 400000
def ROLLING_MODULUS : Int := 2 ^ 255 - 19
def LEAF_DOMAIN : Bytes := asciiBytes "sparkinterval/tg/dirichlet-compact-state-v3/leaf" ++ [0]

/-- `"<8s6I10Q32s32s32s"` -/
abbrev ARTIFACT_HEADER : Format :=
  [.raw 8, .unsigned 4, .unsigned 4, .unsigned 4, .unsigned 4, .unsigned 4, .unsigned 4,
    .unsigned 8, .unsigned 8, .unsigned 8, .unsigned 8, .unsigned 8, .unsigned 8, .unsigned 8,
    .unsigned 8, .unsigned 8, .unsigned 8, .raw 32, .raw 32, .raw 32]

/-- `V3Header`; the two digests are kept as bytes. -/
@[ext]
structure V3Header where
  modeFlags : Int
  q : Int
  pageCharacters : Int
  countWidth : Int
  primitiveCount : Int
  frameCount : Int
  firstTNumerator : Int
  stopTNumerator : Int
  pageCount : Int
  transitionCount : Int
  ambiguitySampleCount : Int
  ambiguityRangeCount : Int
  debugBracketCount : Int
  leafCount : Int
  leafCommitment : Int
  rosterSha256 : Bytes
  sourceBindingSha256 : Bytes
  deriving DecidableEq, Repr

/-- Both mode flags that a header can have. -/
def modeFlags (debug : Bool) : Int := if debug then PRODUCTION_FLAG + DEBUG_BRACKET_FLAG else PRODUCTION_FLAG

/-- `bool(mode_flags & DEBUG_BRACKET_FLAG)` -/
def isDebug (modeFlags : Int) : Bool := modeFlags.toNat &&& DEBUG_BRACKET_FLAG.toNat ≠ 0

def V3Header.debug (header : V3Header) : Bool := isDebug header.modeFlags

/-- The values of the packed header. -/
def V3Header.record (header : V3Header) : Record ARTIFACT_HEADER :=
  (ARTIFACT_MAGIC, ARTIFACT_FORMAT_VERSION, header.modeFlags, header.q, header.pageCharacters,
    header.countWidth, 0, header.primitiveCount, header.frameCount, header.firstTNumerator,
    header.stopTNumerator, header.pageCount, header.transitionCount, header.ambiguitySampleCount,
    header.ambiguityRangeCount, header.debugBracketCount, header.leafCount,
    Bytes.ofNatBE 32 header.leafCommitment.toNat, header.rosterSha256, header.sourceBindingSha256, ())

/-- `_pack_header` -/
def packHeader (header : V3Header) : Checked Bytes := structPack ARTIFACT_HEADER header.record

/-- The pages of a roster. -/
def expectedPages (primitiveCount : Int) : Int :=
  (primitiveCount + PAGE_CHARACTERS - 1) / PAGE_CHARACTERS

/-- `_unpack_header` -/
def unpackHeader (raw : Bytes) : Checked V3Header := do
  failIf (raw.length ≠ size ARTIFACT_HEADER) "truncated v3 header"
  let (magic, version, modeFlags, q, pageCharacters, countWidth, reserved, primitiveCount,
    frameCount, firstTNumerator, stopTNumerator, pageCount, transitionCount, ambiguitySampleCount,
    ambiguityRangeCount, debugBracketCount, leafCount, rawCommitment, rawRoster, rawSource, _) :=
    read ARTIFACT_HEADER raw
  let samples ← stateSpan firstTNumerator stopTNumerator
  failIf (magic ≠ ARTIFACT_MAGIC ∨ version ≠ ARTIFACT_FORMAT_VERSION
      ∨ modeFlags ∉ [PRODUCTION_FLAG, PRODUCTION_FLAG + DEBUG_BRACKET_FLAG]
      ∨ ¬ (1 ≤ q ∧ q ≤ MAXIMUM_MODULUS) ∨ pageCharacters ≠ PAGE_CHARACTERS
      ∨ countWidth ≠ transitionCountWidth samples ∨ reserved ≠ 0 ∨ primitiveCount = 0
      ∨ frameCount = 0 ∨ pageCount ≠ expectedPages primitiveCount
      ∨ primitiveCount * max 0 (samples - 1) < transitionCount
      ∨ primitiveCount * samples < ambiguitySampleCount ∨ leafCount = 0
      ∨ ROLLING_MODULUS ≤ Bytes.beValue rawCommitment
      ∨ (isDebug modeFlags = false ∧ debugBracketCount ≠ 0))
    "v3 header identity, flags, or arithmetic differs"
  pure ⟨modeFlags, q, pageCharacters, countWidth, primitiveCount, frameCount, firstTNumerator,
    stopTNumerator, pageCount, transitionCount, ambiguitySampleCount, ambiguityRangeCount,
    debugBracketCount, leafCount, Bytes.beValue rawCommitment, rawRoster, rawSource⟩

/-- `_positive_bound` -/
def positiveBound (name : String) (value maximum : Int) : Checked Int := do
  let value ← uint name (some value) maximum
  failIf (value = 0) (name ++ " must be positive")
  pure value

/-- `_digest`, as bytes -/
def digestBytes (name value : String) : Checked Bytes :=
  match Bytes.ofHexChars value.toList with
  | none => .error (.failed (name ++ " must be a lowercase SHA-256 digest"))
  | some raw => do
      failIf (raw.length ≠ 32) (name ++ " must be a lowercase SHA-256 digest")
      pure raw

def addTotals (a b : PageTotals) : PageTotals :=
  ⟨a.transitions + b.transitions, a.ambiguitySamples + b.ambiguitySamples,
    a.ambiguityRanges + b.ambiguityRanges, a.debugBrackets + b.debugBrackets⟩

/-! ## The writer -/

/-- The arguments of `write_compact_state_v3` besides the states. -/
structure WriteArguments where
  q : Int
  frameCount : Int
  firstTNumerator : Int
  stopTNumerator : Int
  sourceBindingSha256 : String
  debugBrackets : Bool := false
  leafCount : Option Int := none
  leafCommitment : Option Int := none
  expectedRosterSha256 : Option String := none
  maximumBytes : Int
  maximumPagePayloadBytes : Int
  deriving DecidableEq, Repr

/-- The loop over the characters of a page. It returns the rows that are left. -/
def normalizePage (span : Span) (debug : Bool) :
    List Identity → List RawState → Checked (List CharacterState × List RawState)
  | [], rows => pure ([], rows)
  | _ :: _, [] => .error (.failed "v3 state producer ended before the complete roster")
  | identity :: identities, row :: rows => do
      let state ← normalizeState span debug identity row
      let (states, rest) ← normalizePage span debug identities rows
      pure (state :: states, rest)

/-- The loop over the pages. It returns the pages, their totals and the rows that are left. -/
def writePages (span : Span) (debug : Bool) (countWidth : Nat) (maximumBytes maximumPayload : Int) :
    Nat → Nat → List Identity → List RawState → Int →
      Checked (Bytes × PageTotals × List RawState)
  | 0, _, _, rows, _ => pure ([], ⟨0, 0, 0, 0⟩, rows)
  | pages + 1, start, identities, rows, written => do
      let (states, rows) ← normalizePage span debug (identities.take PAGE_CHARACTERS) rows
      let (rawPage, totals) ← pageBytes countWidth start maximumPayload.toNat states
      failIf (maximumBytes < written + rawPage.length)
        "v3 artifact exceeds its externally supplied byte bound"
      let (more, moreTotals, rows) ← writePages span debug countWidth maximumBytes maximumPayload
        pages (start + PAGE_CHARACTERS) (identities.drop PAGE_CHARACTERS) rows
        (written + rawPage.length)
      pure (rawPage ++ more, addTotals totals moreTotals, rows)

/-- The leaf of a file that is given none: a digest of its pages. -/
def defaultCommitment (source pages : Bytes) : Int :=
  (Bytes.beValue (Sha256.digest (LEAF_DOMAIN ++ source ++ Sha256.digest (LEAF_DOMAIN ++ pages))) : Int)
    % ROLLING_MODULUS

/-- The leaf count and commitment that were given, checked. -/
def givenLeaf (leafCount leafCommitment : Option Int) : Checked (Option (Int × Int)) :=
  match leafCount, leafCommitment with
  | none, none => pure none
  | some count, some commitment => do
      let count ← positiveBound "leaf count" count MAX_EVENT_COUNT
      let commitment ← uint "leaf commitment" (some commitment) (ROLLING_MODULUS - 1)
      pure (some (count, commitment))
  | _, _ => .error (.failed "v3 leaf count and commitment must be supplied together")

/-- The check of the roster against an external pin. -/
def checkRoster (digest : Bytes) : Option String → Checked Unit
  | none => pure ()
  | some expected => do
      let expected ← digestBytes "expected complete roster" expected
      failIf (digest ≠ expected) "v3 complete primitive roster differs from its external pin"

/-- `write_compact_state_v3`, the bytes of the file. -/
def writeCompactState (roster : RosterSource) (a : WriteArguments) (rows : List RawState) :
    Checked Bytes := do
  let q ← positiveBound "q" a.q MAXIMUM_MODULUS
  let frameCount ← positiveBound "frame count" a.frameCount MAX_EVENT_COUNT
  let samples ← stateSpan a.firstTNumerator a.stopTNumerator
  let source ← digestBytes "upstream source binding" a.sourceBindingSha256
  let maximumBytes ← positiveBound "maximum artifact bytes" a.maximumBytes MAXIMUM_ARTIFACT_BYTES
  let maximumPayload ← positiveBound "maximum page payload bytes" a.maximumPagePayloadBytes
    MAXIMUM_PAGE_PAYLOAD_BYTES
  let leaf ← givenLeaf a.leafCount a.leafCommitment
  let identities := roster.identities q
  failIf (identities.length = 0) "v3 artifacts require a nonempty primitive roster"
  checkRoster (roster.digest q) a.expectedRosterSha256
  let pageCount := expectedPages identities.length
  let countWidth := transitionCountWidth samples
  let (pages, totals, rest) ← writePages ⟨a.firstTNumerator, a.stopTNumerator, samples⟩
    a.debugBrackets countWidth maximumBytes maximumPayload pageCount.toNat 0 identities rows
    (size ARTIFACT_HEADER)
  failIf (rest ≠ []) "v3 state producer contains characters after the roster"
  let (leafCount, leafCommitment) := leaf.getD (1, defaultCommitment source pages)
  let header ← packHeader
    ⟨modeFlags a.debugBrackets, q, PAGE_CHARACTERS, countWidth, identities.length, frameCount,
      a.firstTNumerator, a.stopTNumerator, pageCount, totals.transitions, totals.ambiguitySamples,
      totals.ambiguityRanges, totals.debugBrackets, leafCount, leafCommitment, roster.digest q, source⟩
  pure (header ++ pages)

/-! ## The reader -/

/-- `_read_exact` -/
def readExact (stream : Bytes) (count : Nat) (label : String) : Checked (Bytes × Bytes) := do
  failIf ((stream.take count).length ≠ count) ("truncated " ++ label)
  pure (stream.take count, stream.drop count)

/-- The header of a page and its payload, checked, and the states that it holds. -/
def readPage (span : Span) (debug : Bool) (countWidth : Nat) (maximumPayload : Int) (start : Nat)
    (identities : List Identity) (stream : Bytes) :
    Checked (List CharacterState × PageTotals × Bytes) := do
  let (rawHeader, stream) ← readExact stream (size PAGE_HEADER) "v3 page header"
  let (ordinalStart, characters, sparse, payloadBytes, transitions, ambiguities, ranges, brackets,
    rawSha256, _) := read PAGE_HEADER rawHeader
  failIf (ordinalStart ≠ start ∨ characters ≠ identities.length ∨ characters < sparse
      ∨ maximumPayload < payloadBytes ∨ characters * max 0 (span.samples - 1) < transitions
      ∨ characters * span.samples < ambiguities ∨ (debug = false ∧ brackets ≠ 0))
    "v3 page identity, bound, or arithmetic differs"
  let (payload, stream) ← readExact stream payloadBytes.toNat "v3 page payload"
  let head ← structPack PAGE_PREFIX
    (ordinalStart, characters, sparse, payloadBytes, transitions, ambiguities, ranges, brackets, ())
  failIf (Sha256.digest (PAGE_DOMAIN ++ head ++ payload) ≠ rawSha256) "v3 page digest differs"
  let (states, totals) ← decodePage span debug countWidth identities sparse.toNat payload
  failIf (totals ≠ ⟨transitions, ambiguities, ranges, brackets⟩) "v3 page semantic totals differ"
  pure (states, totals, stream)

/-- The loop over the pages. -/
def readPages (span : Span) (debug : Bool) (countWidth : Nat) (maximumPayload : Int) :
    Nat → Nat → List Identity → Bytes → Checked (List CharacterState × PageTotals × Bytes)
  | 0, _, _, stream => pure ([], ⟨0, 0, 0, 0⟩, stream)
  | pages + 1, start, identities, stream => do
      let (states, totals, stream) ← readPage span debug countWidth maximumPayload start
        (identities.take PAGE_CHARACTERS) stream
      let (more, moreTotals, stream) ← readPages span debug countWidth maximumPayload pages
        (start + PAGE_CHARACTERS) (identities.drop PAGE_CHARACTERS) stream
      pure (states ++ more, addTotals totals moreTotals, stream)

/-- `_iter_compact_state_v3`, run to its end: the header and the states. -/
def iterCompactState (roster : RosterSource) (maximumBytes maximumPagePayloadBytes : Int)
    (file : Bytes) : Checked (V3Header × List CharacterState) := do
  let maximumBytes ← positiveBound "maximum artifact bytes" maximumBytes MAXIMUM_ARTIFACT_BYTES
  let maximumPayload ← positiveBound "maximum page payload bytes" maximumPagePayloadBytes
    MAXIMUM_PAGE_PAYLOAD_BYTES
  failIf (¬ (size ARTIFACT_HEADER ≤ file.length ∧ (file.length : Int) ≤ maximumBytes))
    "v3 artifact type, size, or expected bound differs"
  let (rawHeader, stream) ← readExact file (size ARTIFACT_HEADER) "v3 header"
  let header ← unpackHeader rawHeader
  let identities := roster.identities header.q
  failIf ((identities.length : Int) ≠ header.primitiveCount
      ∨ roster.digest header.q ≠ header.rosterSha256)
    "v3 complete primitive roster digest differs"
  let samples := (header.stopTNumerator - header.firstTNumerator) / SOURCE_SAMPLE_NUMERATOR
  let (states, totals, stream) ← readPages ⟨header.firstTNumerator, header.stopTNumerator, samples⟩
    header.debug header.countWidth.toNat maximumPayload header.pageCount.toNat 0 identities stream
  failIf (stream ≠ []) "v3 artifact has trailing bytes"
  failIf ((states.length : Int) ≠ header.primitiveCount
      ∨ totals ≠ ⟨header.transitionCount, header.ambiguitySampleCount, header.ambiguityRangeCount,
        header.debugBracketCount⟩)
    "v3 artifact totals differ from its header"
  pure (header, states)

end AttestedCompute.CompactV3
