import AttestedCompute.CompactV3.PageSequence

/-!
# One file for the states of a roster

Reading a written file gives the normalized states. A file that is read is the one that the writer
makes of its states exactly when the reserved bytes of its debug brackets are zero; a production file
has none.
-/

namespace AttestedCompute.CompactV3

open Fallible PackedStruct

/-- The reserved bytes of a file are zero. -/
def ReservedClear (file : Bytes) : Prop :=
  let header := read ARTIFACT_HEADER (file.take (size ARTIFACT_HEADER))
  PagesClear header.2.2.2.2.2.1.toNat header.2.2.2.2.2.2.2.2.2.2.2.1.toNat
    (file.drop (size ARTIFACT_HEADER))

/-! ## The header -/

/-- What holds of a header that is read. -/
structure V3Header.Valid (header : V3Header) : Prop where
  samples : stateSpan header.firstTNumerator header.stopTNumerator =
    .ok ((header.stopTNumerator - header.firstTNumerator) / SOURCE_SAMPLE_NUMERATOR).toNat
  flags : header.modeFlags = CompactV3.modeFlags header.debug
  q : 1 ≤ header.q ∧ header.q ≤ MAXIMUM_MODULUS
  pageCharacters : header.pageCharacters = PAGE_CHARACTERS
  countWidth : header.countWidth = transitionCountWidth
    ((header.stopTNumerator - header.firstTNumerator) / SOURCE_SAMPLE_NUMERATOR)
  primitiveCount : header.primitiveCount ≠ 0
  frameCount : header.frameCount ≠ 0
  pageCount : header.pageCount = expectedPages header.primitiveCount
  transitions : header.transitionCount ≤ header.primitiveCount *
    max 0 ((header.stopTNumerator - header.firstTNumerator) / SOURCE_SAMPLE_NUMERATOR - 1)
  ambiguities : header.ambiguitySampleCount ≤ header.primitiveCount *
    ((header.stopTNumerator - header.firstTNumerator) / SOURCE_SAMPLE_NUMERATOR)
  leafCount : header.leafCount ≠ 0
  leafCommitment : 0 ≤ header.leafCommitment ∧ header.leafCommitment < ROLLING_MODULUS
  brackets : header.debug = false → header.debugBracketCount = 0

theorem modeFlags_isDebug {flags : Int}
    (h : flags ∈ [PRODUCTION_FLAG, PRODUCTION_FLAG + DEBUG_BRACKET_FLAG]) :
    flags = modeFlags (isDebug flags) := by
  rcases List.mem_pair.mp h with rfl | rfl <;> rfl

theorem isDebug_modeFlags (debug : Bool) : isDebug (modeFlags debug) = debug := by
  cases debug <;> rfl

theorem mem_modeFlags (debug : Bool) :
    modeFlags debug ∈ [PRODUCTION_FLAG, PRODUCTION_FLAG + DEBUG_BRACKET_FLAG] := by
  cases debug <;> simp [modeFlags]

theorem ofNatBE_leaf {leaf : Int} (h : 0 ≤ leaf ∧ leaf < ROLLING_MODULUS) :
    (Bytes.beValue (Bytes.ofNatBE 32 leaf.toNat) : Int) = leaf := by
  have hlt : leaf.toNat < 256 ^ 32 := by
    have := h.2
    unfold ROLLING_MODULUS at this
    omega
  rw [Bytes.beValue_ofNatBE_of_lt hlt]
  exact Int.toNat_of_nonneg h.1

theorem samples_pos {first stop : Int} {samples : Nat} (h : stateSpan first stop = .ok samples) :
    (stop - first) / SOURCE_SAMPLE_NUMERATOR = samples ∧ 0 < samples := by
  obtain ⟨⟨_, hlt, _, hgrid⟩, rfl⟩ := stateSpan_ok.mp h
  unfold SOURCE_SAMPLE_NUMERATOR at *
  omega

theorem valid_of_unpackHeader {raw : Bytes} {header : V3Header}
    (h : unpackHeader raw = .ok header) :
    raw.length = size ARTIFACT_HEADER ∧ read ARTIFACT_HEADER raw = header.record ∧ header.Valid := by
  rcases hrecord : read ARTIFACT_HEADER raw with ⟨magic, version, modeFlags, q, pageCharacters,
    countWidth, reserved, primitiveCount, frameCount, firstTNumerator, stopTNumerator, pageCount,
    transitionCount, ambiguitySampleCount, ambiguityRangeCount, debugBracketCount, leafCount,
    rawCommitment, rawRoster, rawSource, ⟨⟩⟩
  simp only [unpackHeader, hrecord, bind_ok, failIf_ok, not_or, not_not, pure_ok, not_lt,
    not_le] at h
  obtain ⟨_, hlength, samples, hspan, _, ⟨rfl, rfl, hflags, hq, hcharacters, hwidth, rfl, hprimitive,
    hframe, hpages, htransitions, hambiguities, hleaf, hcommitment, hbrackets⟩, rfl⟩ := h
  obtain ⟨hcast, hpos⟩ := samples_pos hspan
  refine ⟨hlength, ?_, ?_⟩
  · have hexact := exact_read hlength
    rw [hrecord] at hexact
    have hraw : rawCommitment.length = 32 := hexact.2.1
    have hback : Bytes.ofNatBE 32 (Bytes.beValue rawCommitment : Int).toNat = rawCommitment := by
      rw [Int.toNat_natCast, ← hraw, Bytes.ofNatBE_beValue]
    rw [V3Header.record, hback]
  · exact
      { samples := by rw [hcast]; exact hspan
        flags := modeFlags_isDebug hflags
        q := hq
        pageCharacters := hcharacters
        countWidth := by rw [hcast]; exact hwidth
        primitiveCount := hprimitive
        frameCount := hframe
        pageCount := hpages
        transitions := by
          rw [hcast, show (samples : Int) - 1 = ((samples - 1 : Nat) : Int) by omega]
          exact htransitions
        ambiguities := by rw [hcast]; exact hambiguities
        leafCount := hleaf
        leafCommitment := ⟨Int.natCast_nonneg _, hcommitment⟩
        brackets := fun hdebug => not_not.mp fun h => hbrackets ⟨hdebug, h⟩ }

/-- **The header that is read.** -/
theorem unpackHeader_of_valid {raw : Bytes} {header : V3Header}
    (hlength : raw.length = size ARTIFACT_HEADER)
    (hread : read ARTIFACT_HEADER raw = header.record) (h : header.Valid) :
    unpackHeader raw = .ok header := by
  obtain ⟨hcast, hpos⟩ := samples_pos h.samples
  have hleaf := ofNatBE_leaf h.leafCommitment
  unfold unpackHeader
  refine bind_ok.mpr ⟨(), failIf_ok.mpr (not_not.mpr hlength), ?_⟩
  simp only [hread, V3Header.record]
  refine bind_ok.mpr ⟨_, h.samples, ?_⟩
  refine bind_ok.mpr ⟨(), failIf_ok.mpr ?_, ?_⟩
  · simp only [not_or, not_not, not_lt, not_le]
    refine ⟨trivial, trivial, ?_, h.q, h.pageCharacters, ?_, trivial, h.primitiveCount, h.frameCount,
      h.pageCount, ?_, ?_, h.leafCount, ?_, fun hproduction => hproduction.2 (h.brackets hproduction.1)⟩
    · rw [h.flags]
      exact mem_modeFlags _
    · rw [← hcast]
      exact h.countWidth
    · have hmax : max 0 ((header.stopTNumerator - header.firstTNumerator) / SOURCE_SAMPLE_NUMERATOR
          - 1) = ((max 0 (((header.stopTNumerator - header.firstTNumerator) /
            SOURCE_SAMPLE_NUMERATOR).toNat - 1) : Nat) : Int) := by omega
      have htransitions := h.transitions
      rwa [hmax] at htransitions
    · rw [← hcast]
      exact h.ambiguities
    · rw [hleaf]
      exact h.leafCommitment.2
  · rw [hleaf]
    rfl

theorem packHeader_ok {header : V3Header} {raw : Bytes} (hroster : header.rosterSha256.length = 32)
    (hsource : header.sourceBindingSha256.length = 32) :
    packHeader header = .ok raw ↔
      raw.length = size ARTIFACT_HEADER ∧ read ARTIFACT_HEADER raw = header.record := by
  have hmagic : ARTIFACT_MAGIC.length = 8 := rfl
  have hleaf : (Bytes.ofNatBE 32 header.leafCommitment.toNat).length = 32 := Bytes.length_ofNatBE _ _
  have hexact : Exact ARTIFACT_HEADER header.record :=
    ⟨hmagic, hleaf, hroster, hsource, trivial⟩
  rw [packHeader, structPack_ok, pack_eq_some hexact]
  exact ⟨fun h => ⟨h.1, h.2.2⟩, fun h => ⟨h.1, trivial, h.2⟩⟩

/-! ## The file -/

/-- The grid of a file. -/
def V3Header.span (header : V3Header) : Span where
  first := header.firstTNumerator
  stop := header.stopTNumerator
  samples := (header.stopTNumerator - header.firstTNumerator) / SOURCE_SAMPLE_NUMERATOR

/-- The bytes are the file of the states under the header. -/
structure IsFile (roster : RosterSource) (maximumBytes maximumPayload : Int) (header : V3Header)
    (states : List CharacterState) (file : Bytes) : Prop where
  bytesBound : 0 < maximumBytes ∧ maximumBytes ≤ MAXIMUM_ARTIFACT_BYTES
  payloadBound : 0 < maximumPayload ∧ maximumPayload ≤ MAXIMUM_PAGE_PAYLOAD_BYTES
  valid : header.Valid
  primitiveCount : ((roster.identities header.q).length : Int) = header.primitiveCount
  rosterDigest : roster.digest header.q = header.rosterSha256
  source : header.sourceBindingSha256.length = 32
  totals : totalsOf states = ⟨header.transitionCount, header.ambiguitySampleCount,
    header.ambiguityRangeCount, header.debugBracketCount⟩
  fits : (file.length : Int) ≤ maximumBytes
  bytes : ∃ raw pages, file = raw ++ pages ∧ raw.length = size ARTIFACT_HEADER ∧
    read ARTIFACT_HEADER raw = header.record ∧
    ArePages header.span header.debug header.countWidth.toNat maximumPayload.toNat
      header.pageCount.toNat 0 (roster.identities header.q) states pages

theorem IsFile.primitiveCount_le {roster : RosterSource} {maximumBytes maximumPayload : Int}
    {header : V3Header} {states : List CharacterState} {file : Bytes}
    (h : IsFile roster maximumBytes maximumPayload header states file) :
    (roster.identities header.q).length ≤ header.pageCount.toNat * PAGE_CHARACTERS := by
  rw [h.valid.pageCount, ← h.primitiveCount]
  exact le_expectedPages _

theorem positiveBound_ok {name : String} {value maximum n : Int} :
    positiveBound name value maximum = .ok n ↔ n = value ∧ 0 < value ∧ value ≤ maximum := by
  simp only [positiveBound, bind_ok, uint_ok, failIf_ok, pure_ok, Option.some_inj]
  constructor
  · intro h
    obtain ⟨_, ⟨rfl, hfits⟩, _, hne, rfl⟩ := h
    exact ⟨rfl, by omega, hfits.2⟩
  · intro h
    obtain ⟨rfl, hpos, hfits⟩ := h
    exact ⟨_, ⟨rfl, hpos.le, hfits⟩, (), hpos.ne', rfl⟩

theorem length_of_digestBytes {name value : String} {raw : Bytes}
    (h : digestBytes name value = .ok raw) : raw.length = 32 := by
  unfold digestBytes at h
  split at h
  · cases h
  · simp only [bind_ok, failIf_ok, not_not, pure_ok] at h
    obtain ⟨_, hlength, rfl⟩ := h
    exact hlength

theorem digestBytes_hex {name : String} {raw : Bytes} (h : raw.length = 32) :
    digestBytes name raw.hex = .ok raw := by
  rw [digestBytes, Bytes.ofHexChars_hex]
  exact bind_ok.mpr ⟨(), failIf_ok.mpr (not_not.mpr h), rfl⟩

theorem IsFile.iterCompactState {roster : RosterSource} {maximumBytes maximumPayload : Int}
    {header : V3Header} {states : List CharacterState} {file : Bytes}
    (h : IsFile roster maximumBytes maximumPayload header states file) :
    iterCompactState roster maximumBytes maximumPayload file = .ok (header, states) := by
  obtain ⟨raw, pages, hfile, hlength, hread, hpages⟩ := h.bytes
  have hreads := readPages_of_arePages h.payloadBound.1.le hpages []
  rw [List.append_nil] at hreads
  unfold CompactV3.iterCompactState
  refine bind_ok.mpr ⟨_, positiveBound_ok.mpr ⟨rfl, h.bytesBound⟩, ?_⟩
  refine bind_ok.mpr ⟨_, positiveBound_ok.mpr ⟨rfl, h.payloadBound⟩, ?_⟩
  refine bind_ok.mpr ⟨(), failIf_ok.mpr (not_not.mpr ⟨?_, h.fits⟩), ?_⟩
  · rw [hfile, List.length_append, hlength]
    exact Nat.le_add_right _ _
  refine bind_ok.mpr ⟨_, readExact_ok.mpr ⟨hlength, hfile⟩, ?_⟩
  refine bind_ok.mpr ⟨_, unpackHeader_of_valid hlength hread h.valid, ?_⟩
  refine bind_ok.mpr ⟨(), failIf_ok.mpr ?_, ?_⟩
  · rw [not_or, not_not, not_not]
    exact ⟨h.primitiveCount, h.rosterDigest⟩
  refine bind_ok.mpr ⟨_, hreads, ?_⟩
  refine bind_ok.mpr ⟨(), failIf_ok.mpr (not_not.mpr rfl), ?_⟩
  refine bind_ok.mpr ⟨(), failIf_ok.mpr ?_, rfl⟩
  have hstates := length_of_arePages h.primitiveCount_le hpages
  rw [not_or, not_not, not_not, hstates]
  exact ⟨h.primitiveCount, h.totals⟩

theorem givenLeaf_ok {leafCount leafCommitment : Option Int} {leaf : Option (Int × Int)}
    {source pages : Bytes} (h : givenLeaf leafCount leafCommitment = .ok leaf) :
    (leaf.getD (1, defaultCommitment source pages)).1 ≠ 0 ∧
      0 ≤ (leaf.getD (1, defaultCommitment source pages)).2 ∧
      (leaf.getD (1, defaultCommitment source pages)).2 < ROLLING_MODULUS := by
  have hpos : 0 < ROLLING_MODULUS := by
    unfold ROLLING_MODULUS
    norm_num
  unfold givenLeaf at h
  split at h
  · cases h
    exact ⟨one_ne_zero, Int.emod_nonneg _ hpos.ne', Int.emod_lt_of_pos _ hpos⟩
  · simp only [bind_ok, positiveBound_ok, uint_ok, pure_ok] at h
    obtain ⟨_, ⟨rfl, hcount, _⟩, _, ⟨_, hnonneg, hle⟩, rfl⟩ := h
    exact ⟨hcount.ne', hnonneg, by exact Int.lt_of_le_sub_one hle⟩
  · cases h

theorem expectedPages_pos {count : Nat} (h : count ≠ 0) : 0 < (expectedPages count).toNat := by
  unfold expectedPages PAGE_CHARACTERS
  omega

-- the number of pages is never computed: it would be by counting down from 4096
attribute [local irreducible] expectedPages

/-- The header that the writer packs. -/
def writtenHeader (roster : RosterSource) (a : WriteArguments) (samples : Nat) (totals : PageTotals)
    (leaf : Int × Int) (source : Bytes) : V3Header where
  modeFlags := modeFlags a.debugBrackets
  q := a.q
  pageCharacters := PAGE_CHARACTERS
  countWidth := transitionCountWidth samples
  primitiveCount := (roster.identities a.q).length
  frameCount := a.frameCount
  firstTNumerator := a.firstTNumerator
  stopTNumerator := a.stopTNumerator
  pageCount := expectedPages (roster.identities a.q).length
  transitionCount := totals.transitions
  ambiguitySampleCount := totals.ambiguitySamples
  ambiguityRangeCount := totals.ambiguityRanges
  debugBracketCount := totals.debugBrackets
  leafCount := leaf.1
  leafCommitment := leaf.2
  rosterSha256 := roster.digest a.q
  sourceBindingSha256 := source

theorem debug_writtenHeader (roster : RosterSource) (a : WriteArguments) (samples : Nat)
    (totals : PageTotals) (leaf : Int × Int) (source : Bytes) :
    (writtenHeader roster a samples totals leaf source).debug = a.debugBrackets :=
  isDebug_modeFlags a.debugBrackets

theorem span_writtenHeader {a : WriteArguments} {samples : Nat}
    (hcast : (a.stopTNumerator - a.firstTNumerator) / SOURCE_SAMPLE_NUMERATOR = samples)
    (roster : RosterSource) (totals : PageTotals) (leaf : Int × Int) (source : Bytes) :
    (writtenHeader roster a samples totals leaf source).span =
      ⟨a.firstTNumerator, a.stopTNumerator, samples⟩ := congrArg (Span.mk _ _) hcast

theorem countWidth_writtenHeader (roster : RosterSource) (a : WriteArguments) (samples : Nat)
    (totals : PageTotals) (leaf : Int × Int) (source : Bytes) :
    (writtenHeader roster a samples totals leaf source).countWidth.toNat =
      transitionCountWidth samples := Int.toNat_natCast _

theorem pageCount_writtenHeader (roster : RosterSource) (a : WriteArguments) (samples : Nat)
    (totals : PageTotals) (leaf : Int × Int) (source : Bytes) :
    (writtenHeader roster a samples totals leaf source).pageCount =
      expectedPages (roster.identities a.q).length := rfl

theorem valid_writtenHeader {roster : RosterSource} {a : WriteArguments} {samples : Nat}
    {states : List CharacterState} {leaf : Int × Int} {source : Bytes}
    (hspan : stateSpan a.firstTNumerator a.stopTNumerator = .ok samples)
    (hq : 0 < a.q ∧ a.q ≤ MAXIMUM_MODULUS) (hframe : 0 < a.frameCount ∧ a.frameCount ≤ MAX_EVENT_COUNT)
    (hnonempty : (roster.identities a.q).length ≠ 0)
    (hnormal : AllNormal ⟨a.firstTNumerator, a.stopTNumerator, samples⟩ a.debugBrackets
      (roster.identities a.q) states)
    (hleaf : leaf.1 ≠ 0 ∧ 0 ≤ leaf.2 ∧ leaf.2 < ROLLING_MODULUS) :
    (writtenHeader roster a samples (totalsOf states) leaf source).Valid := by
  obtain ⟨hcast, hpos⟩ := samples_pos hspan
  exact
    { samples := hspan.trans (congrArg Except.ok (stateSpan_ok.mp hspan).2)
      flags := (congrArg CompactV3.modeFlags (debug_writtenHeader roster a samples _ leaf source)).symm
      q := hq
      pageCharacters := rfl
      countWidth := congrArg (fun samples : Int => (transitionCountWidth samples : Int)) hcast.symm
      primitiveCount := fun hzero => hnonempty (Int.natCast_eq_zero.mp hzero)
      frameCount := hframe.1.ne'
      pageCount := rfl
      transitions := by
        have htransitions := hnormal.transitions_le
        rwa [← hcast] at htransitions
      ambiguities := by
        have hambiguities := hnormal.ambiguities_le
        rwa [← hcast] at hambiguities
      leafCount := hleaf.1
      leafCommitment := hleaf.2
      brackets := fun hdebug => hnormal.production (by rwa [debug_writtenHeader] at hdebug) }

theorem isFile_writtenHeader {roster : RosterSource} {a : WriteArguments} {samples : Nat}
    {states : List CharacterState} {leaf : Int × Int} {source raw pages : Bytes}
    (hbytes : 0 < a.maximumBytes ∧ a.maximumBytes ≤ MAXIMUM_ARTIFACT_BYTES)
    (hpayload : 0 < a.maximumPagePayloadBytes ∧
      a.maximumPagePayloadBytes ≤ MAXIMUM_PAGE_PAYLOAD_BYTES)
    (hcast : (a.stopTNumerator - a.firstTNumerator) / SOURCE_SAMPLE_NUMERATOR = samples)
    (hvalid : (writtenHeader roster a samples (totalsOf states) leaf source).Valid)
    (hsource : source.length = 32) (hlength : raw.length = size ARTIFACT_HEADER)
    (hread : read ARTIFACT_HEADER raw =
      (writtenHeader roster a samples (totalsOf states) leaf source).record)
    (hpages : ArePages ⟨a.firstTNumerator, a.stopTNumerator, samples⟩ a.debugBrackets
      (transitionCountWidth samples) a.maximumPagePayloadBytes.toNat
      (expectedPages (roster.identities a.q).length).toNat 0 (roster.identities a.q) states pages)
    (hbound : size ARTIFACT_HEADER + pages.length ≤ a.maximumBytes) :
    IsFile roster a.maximumBytes a.maximumPagePayloadBytes
      (writtenHeader roster a samples (totalsOf states) leaf source) states (raw ++ pages) where
  bytesBound := hbytes
  payloadBound := hpayload
  valid := hvalid
  primitiveCount := rfl
  rosterDigest := rfl
  source := hsource
  totals := rfl
  fits := by
    rw [List.length_append, hlength]
    exact_mod_cast hbound
  bytes := by
    refine ⟨raw, pages, rfl, hlength, hread, ?_⟩
    rw [debug_writtenHeader, span_writtenHeader hcast, countWidth_writtenHeader,
      pageCount_writtenHeader]
    exact hpages

/-- **What the writer writes is a file of its normalized rows.** -/
theorem isFile_of_writeCompactState {roster : RosterSource} {a : WriteArguments}
    {rows : List RawState} {file : Bytes} (h : writeCompactState roster a rows = .ok file) :
    ∃ header states, IsFile roster a.maximumBytes a.maximumPagePayloadBytes header states file ∧
      Normalizes ⟨a.firstTNumerator, a.stopTNumerator,
          (a.stopTNumerator - a.firstTNumerator) / SOURCE_SAMPLE_NUMERATOR⟩ a.debugBrackets
        (roster.identities a.q) rows states := by
  simp only [writeCompactState, bind_ok, Prod.exists, positiveBound_ok, failIf_ok, pure_ok,
    not_not] at h
  obtain ⟨_, ⟨rfl, hq⟩, _, ⟨rfl, hframe⟩, samples, hspan, source, hsource, _, ⟨rfl, hbytes⟩, _,
    ⟨rfl, hpayload⟩, leaf, hleaf, _, hnonempty, _, _, pages, totals, _, hpages, _, rfl, raw, hheader,
    rfl⟩ := h
  obtain ⟨hcast, hpos⟩ := samples_pos hspan
  have hsourceLength := length_of_digestBytes hsource
  have hleafOk := @givenLeaf_ok _ _ _ source pages hleaf
  obtain ⟨front, states, rfl, hnormalizes, hare, rfl, hbound⟩ :=
    arePages_of_writePages (le_expectedPages _) hpages
  have hnormal := hnormalizes.allNormal
  obtain ⟨hlength, hread⟩ := (packHeader_ok (roster.length_digest _) hsourceLength).mp hheader
  rw [List.append_nil, hcast]
  exact ⟨_, states, isFile_writtenHeader hbytes hpayload hcast
    (valid_writtenHeader hspan hq hframe hnonempty hnormal hleafOk) hsourceLength hlength hread hare
    (hbound (expectedPages_pos hnonempty)), hnormalizes⟩

/-- The arguments with which the writer makes a file of this header. -/
def argumentsOf (header : V3Header) (maximumBytes maximumPagePayloadBytes : Int) :
    WriteArguments where
  q := header.q
  frameCount := header.frameCount
  firstTNumerator := header.firstTNumerator
  stopTNumerator := header.stopTNumerator
  sourceBindingSha256 := Bytes.hex header.sourceBindingSha256
  debugBrackets := header.debug
  leafCount := some header.leafCount
  leafCommitment := some header.leafCommitment
  maximumBytes := maximumBytes
  maximumPagePayloadBytes := maximumPagePayloadBytes

/-- The header that the writer packs for these arguments is the one that they are from. -/
theorem IsFile.writtenHeader_argumentsOf {roster : RosterSource}
    {maximumBytes maximumPayload : Int} {header : V3Header} {states : List CharacterState}
    {file : Bytes} (h : IsFile roster maximumBytes maximumPayload header states file) :
    writtenHeader roster (argumentsOf header maximumBytes maximumPayload)
      ((header.stopTNumerator - header.firstTNumerator) / SOURCE_SAMPLE_NUMERATOR).toNat
      (totalsOf states) (header.leafCount, header.leafCommitment) header.sourceBindingSha256 =
        header := by
  have hvalid := h.valid
  obtain ⟨hcast, _⟩ := samples_pos hvalid.samples
  refine V3Header.ext hvalid.flags.symm rfl hvalid.pageCharacters.symm ?_ h.primitiveCount rfl rfl rfl
    ?_ ?_ ?_ ?_ ?_ rfl rfl h.rosterDigest rfl
  · rw [hvalid.countWidth, hcast]
    rfl
  · rw [hvalid.pageCount, ← h.primitiveCount]
    rfl
  · exact congrArg PageTotals.transitions h.totals
  · exact congrArg PageTotals.ambiguitySamples h.totals
  · exact congrArg PageTotals.ambiguityRanges h.totals
  · exact congrArg PageTotals.debugBrackets h.totals

theorem IsFile.writeCompactState {roster : RosterSource} {maximumBytes maximumPayload : Int}
    {header : V3Header} {states : List CharacterState} {file : Bytes}
    (h : IsFile roster maximumBytes maximumPayload header states file) :
    writeCompactState roster (argumentsOf header maximumBytes maximumPayload)
      (states.map (·.raw)) = .ok file := by
  obtain ⟨raw, pages, rfl, hlength, hread, hpages⟩ := h.bytes
  have hvalid := h.valid
  obtain ⟨hcast, _⟩ := samples_pos hvalid.samples
  have hfits := h.fits
  rw [List.length_append, hlength] at hfits
  push_cast at hfits
  have hwrites := writePages_of_arePages hpages hfits []
  have hranges := fits_read hlength
  rw [hread] at hranges
  obtain ⟨_, _, _, _, _, _, _, hframeRange, _, _, _, _, _, _, _, hleafRange, _⟩ := hranges
  have hframe : 0 < header.frameCount ∧ header.frameCount ≤ MAX_EVENT_COUNT :=
    ⟨lt_of_le_of_ne hframeRange.1 hvalid.frameCount.symm, Int.le_sub_one_of_lt hframeRange.2⟩
  have hleaf : 0 < header.leafCount ∧ header.leafCount ≤ MAX_EVENT_COUNT :=
    ⟨lt_of_le_of_ne hleafRange.1 hvalid.leafCount.symm, Int.le_sub_one_of_lt hleafRange.2⟩
  unfold CompactV3.writeCompactState
  refine bind_ok.mpr ⟨_, positiveBound_ok.mpr ⟨rfl, hvalid.q⟩, ?_⟩
  refine bind_ok.mpr ⟨_, positiveBound_ok.mpr ⟨rfl, hframe⟩, ?_⟩
  refine bind_ok.mpr ⟨_, hvalid.samples, ?_⟩
  refine bind_ok.mpr ⟨_, digestBytes_hex h.source, ?_⟩
  refine bind_ok.mpr ⟨_, positiveBound_ok.mpr ⟨rfl, h.bytesBound⟩, ?_⟩
  refine bind_ok.mpr ⟨_, positiveBound_ok.mpr ⟨rfl, h.payloadBound⟩, ?_⟩
  refine bind_ok.mpr ⟨some (header.leafCount, header.leafCommitment), ?_, ?_⟩
  · refine bind_ok.mpr ⟨_, positiveBound_ok.mpr ⟨rfl, hleaf⟩, ?_⟩
    exact bind_ok.mpr ⟨_, uint_ok.mpr ⟨rfl, hvalid.leafCommitment.1,
      Int.le_sub_one_of_lt hvalid.leafCommitment.2⟩, rfl⟩
  refine bind_ok.mpr ⟨(), failIf_ok.mpr ?_, ?_⟩
  · intro hzero
    exact hvalid.primitiveCount (by rw [← h.primitiveCount]; exact congrArg _ hzero)
  refine bind_ok.mpr ⟨(), rfl, ?_⟩
  refine bind_ok.mpr ⟨(pages, totalsOf states, []), ?_, ?_⟩
  · rw [List.append_nil, hvalid.pageCount, ← h.primitiveCount, hvalid.countWidth, Int.toNat_natCast,
      V3Header.span, hcast] at hwrites
    exact hwrites
  refine bind_ok.mpr ⟨(), failIf_ok.mpr (not_not.mpr rfl), ?_⟩
  refine bind_ok.mpr ⟨raw, ?_, rfl⟩
  have hroster : header.rosterSha256.length = 32 := by
    rw [← h.rosterDigest]
    exact roster.length_digest _
  exact (congrArg packHeader h.writtenHeader_argumentsOf).trans
    ((packHeader_ok hroster h.source).mpr ⟨hlength, hread⟩)

/-- Where the reserved bytes of a file are, read off its header. -/
theorem reservedClear_append {raw : Bytes} {header : V3Header}
    (hlength : raw.length = size ARTIFACT_HEADER)
    (hread : read ARTIFACT_HEADER raw = header.record) (pages : Bytes) :
    ReservedClear (raw ++ pages) ↔
      PagesClear header.countWidth.toNat header.pageCount.toNat pages := by
  unfold ReservedClear
  rw [List.take_left' hlength, List.drop_left' hlength, hread]
  exact Iff.rfl

-- nothing below looks into the bytes of a header
attribute [local irreducible] ReservedClear

/-- What is read is a file, if the reserved bytes are zeros. -/
theorem isFile_of_iterCompactState {roster : RosterSource} {maximumBytes maximumPayload : Int}
    {header : V3Header} {states : List CharacterState} {file : Bytes}
    (h : iterCompactState roster maximumBytes maximumPayload file = .ok (header, states))
    (hclear : ReservedClear file) :
    IsFile roster maximumBytes maximumPayload header states file := by
  simp only [CompactV3.iterCompactState, bind_ok, Prod.exists, positiveBound_ok, readExact_ok,
    failIf_ok, not_or, not_not, pure_ok, Prod.mk.injEq] at h
  obtain ⟨_, ⟨rfl, hbytes⟩, _, ⟨rfl, hpayload⟩, _, ⟨_, hfits⟩, raw, stream, ⟨hlength, rfl⟩, header',
    hheader, _, ⟨hcount, hroster⟩, states', totals, _, hreads, _, rfl, _, ⟨_, htotals⟩, rfl, rfl⟩ := h
  obtain ⟨_, hread, hvalid⟩ := valid_of_unpackHeader hheader
  obtain ⟨rfl, pages, hstream, hpages⟩ := readPages_sound hreads
  rw [List.append_nil] at hstream
  subst hstream
  exact
    { bytesBound := hbytes
      payloadBound := hpayload
      valid := hvalid
      primitiveCount := hcount
      rosterDigest := hroster
      source := by
        have hexact := exact_read hlength
        rw [hread] at hexact
        exact hexact.2.2.2.1
      totals := htotals
      fits := hfits
      bytes := ⟨raw, _, rfl, hlength, hread,
        hpages ((reservedClear_append hlength hread _).mp hclear)⟩ }

/-- A file has zeros in its reserved bytes. -/
theorem IsFile.reservedClear {roster : RosterSource} {maximumBytes maximumPayload : Int}
    {header : V3Header} {states : List CharacterState} {file : Bytes}
    (h : IsFile roster maximumBytes maximumPayload header states file) : ReservedClear file := by
  obtain ⟨raw, pages, hfile, hlength, hread, hpages⟩ := h.bytes
  have hclear := pagesClear_of_arePages h.payloadBound.1.le hpages []
  rw [List.append_nil] at hclear
  rw [hfile]
  exact (reservedClear_append hlength hread pages).mpr hclear

/-! ## The reserved bytes are the only freedom -/

/-- **One file for the states of a roster, up to the reserved bytes.** A file that the writer makes
is read, and what is read is the normalized rows. A file that is read is the one that the writer
makes of its states exactly when its reserved bytes are zeros. -/
theorem compact_file_canonical (roster : RosterSource) :
    (∀ a rows file, writeCompactState roster a rows = .ok file →
      ∃ header states,
        iterCompactState roster a.maximumBytes a.maximumPagePayloadBytes file = .ok (header, states) ∧
        Normalizes ⟨a.firstTNumerator, a.stopTNumerator,
            (a.stopTNumerator - a.firstTNumerator) / SOURCE_SAMPLE_NUMERATOR⟩ a.debugBrackets
          (roster.identities a.q) rows states) ∧
    ∀ maximumBytes maximumPayload file header states,
      iterCompactState roster maximumBytes maximumPayload file = .ok (header, states) →
        (writeCompactState roster (argumentsOf header maximumBytes maximumPayload)
          (states.map (·.raw)) = .ok file ↔ ReservedClear file) := by
  constructor
  · intro a rows file h
    obtain ⟨header, states, hfile, hnormalizes⟩ := isFile_of_writeCompactState h
    exact ⟨header, states, hfile.iterCompactState, hnormalizes⟩
  · intro maximumBytes maximumPayload file header states hread
    constructor
    · intro hwrite
      obtain ⟨_, _, hfile, _⟩ := isFile_of_writeCompactState hwrite
      exact hfile.reservedClear
    · intro hclear
      exact (isFile_of_iterCompactState hread hclear).writeCompactState

/-! ## Production files -/

/-- A row without brackets has no reserved bytes. -/
theorem clearRow_of_noBrackets {row : Bytes} (h : (rowCounts row).2 = 0) : clearRow row = row := by
  rw [clearRow, h]
  exact List.take_append_drop (rowFront row) row

theorem rowCounts_take {bytes : Bytes} {count : Nat} (h : size SPARSE_ROW_HEADER ≤ count) :
    rowCounts (bytes.take count) = rowCounts bytes := by
  rw [rowCounts, rowCounts, List.take_take, min_eq_left h]

theorem rowCounts_production {span : Span} {bytes rest : Bytes}
    {rows : List AmbiguityRange × List DebugBracket}
    (h : decodeRow span false bytes = .ok (rows, rest)) : (rowCounts bytes).2 = 0 := by
  simp only [decodeRow, bind_ok, failIf_ok, not_and, not_not] at h
  obtain ⟨_, _, _, hnone, _⟩ := h
  exact Int.toNat_eq_zero.mpr (hnone trivial).le

theorem clearRows_production {span : Span} {identities : List Identity}
    {records : List DenseRecord} {states : List CharacterState} {bytes rest : Bytes}
    (hcount : identities.length = records.length)
    (h : decodeStates span false identities records bytes = .ok (states, rest)) :
    clearRows (records.countP (·.hasSparse)) bytes = bytes := by
  induction records generalizing identities states bytes with
  | nil => rfl
  | cons d records ih =>
      cases identities with
      | nil => cases hcount
      | cons identity identities =>
          simp only [decodeStates, bind_ok, Prod.exists, pure_ok, Prod.mk.injEq] at h
          obtain ⟨s, rest', hs, states', _, hstates, rfl, rfl⟩ := h
          have hrest := ih (Nat.succ_injective hcount) hstates
          obtain ⟨_, _, hread⟩ := decodeState_sound hs
          simp only [decodeState, bind_ok, Prod.exists] at hs
          obtain ⟨ranges, brackets, rest'', hrow, _⟩ := hs
          by_cases hsparse : d.hasSparse
          · rw [RowRead, if_pos hsparse] at hread
            rw [decodeSparse, if_pos hsparse] at hrow
            obtain ⟨row, rfl, hlength, _⟩ := hread
            have hnone := rowCounts_production hrow
            have hfront : size SPARSE_ROW_HEADER ≤ row.length := by
              rw [← hlength, rowLength, rowFront]
              omega
            have hcounts := @rowCounts_take (row ++ rest') row.length hfront
            rw [List.take_left] at hcounts
            rw [List.countP_cons_of_pos hsparse, clearRows, hlength, List.take_left, List.drop_left,
              hrest, clearRow_of_noBrackets (by rw [hcounts, hnone])]
          · rw [RowRead, if_neg hsparse] at hread
            rw [List.countP_cons_of_neg hsparse, hread.1, hrest]

theorem clearPayload_production {span : Span} {countWidth sparse : Nat}
    {identities : List Identity} {states : List CharacterState} {payload : Bytes}
    {totals : PageTotals}
    (h : decodePage span false countWidth identities sparse payload = .ok (states, totals)) :
    clearPayload (4 + countWidth) identities.length sparse payload = payload := by
  simp only [decodePage, bind_ok, failIf_ok, not_not, Prod.exists] at h
  obtain ⟨_, _, _, _, records, hrecords, _, rfl, states', rest, hstates, _⟩ := h
  have hcount : identities.length = records.length := by
    have := congrArg List.length (mapM_decodeDense.mp hrecords).2
    simpa using this.symm
  rw [clearPayload, clearRows_production hcount hstates, List.take_append_drop]

theorem pageClear_production {span : Span} {countWidth start : Nat} {maximumPayload : Int}
    {identities : List Identity} {stream rest : Bytes} {states : List CharacterState}
    {totals : PageTotals}
    (h : readPage span false countWidth maximumPayload start identities stream =
      .ok (states, totals, rest)) : PageClear countWidth stream := by
  simp only [readPage, bind_ok, Prod.exists, readExact_ok] at h
  obtain ⟨rawHeader, stream', ⟨hlength, rfl⟩, h⟩ := h
  rcases hrecord : read PAGE_HEADER rawHeader with ⟨ordinalStart, characters, sparse, payloadBytes,
    transitions, ambiguities, ranges, brackets, rawSha256, ⟨⟩⟩
  simp only [hrecord, failIf_ok, not_or, not_not] at h
  obtain ⟨_, ⟨_, rfl, _⟩, payload, rest', ⟨hpayload, rfl⟩, _, _, _, _, states', totals', hdecode, _⟩ := h
  have hclear := @pageClear_append countWidth rawHeader payload hlength (by rw [hrecord, hpayload]) rest'
  rw [hrecord] at hclear
  refine hclear.mpr ?_
  exact clearPayload_production hdecode

theorem pagesClear_production {span : Span} {countWidth pages start : Nat} {maximumPayload : Int}
    {identities : List Identity} {stream rest : Bytes} {states : List CharacterState}
    {totals : PageTotals}
    (h : readPages span false countWidth maximumPayload pages start identities stream =
      .ok (states, totals, rest)) : PagesClear countWidth pages stream := by
  induction pages generalizing start identities stream states totals with
  | zero => trivial
  | succ pages ih =>
      simp only [readPages, bind_ok, Prod.exists, pure_ok, Prod.mk.injEq] at h
      obtain ⟨first, _, stream', hpage, more, _, _, hmore, _, _, rfl⟩ := h
      obtain ⟨_, _, page, rfl, hlength, _⟩ := readPage_sound hpage
      refine ⟨pageClear_production hpage, ?_⟩
      rw [← hlength, List.drop_left]
      exact ih hmore

/-- **A production file has no reserved bytes.** So it is the one that the writer makes. -/
theorem reservedClear_of_production {roster : RosterSource} {maximumBytes maximumPayload : Int}
    {header : V3Header} {states : List CharacterState} {file : Bytes}
    (h : iterCompactState roster maximumBytes maximumPayload file = .ok (header, states))
    (hproduction : header.debug = false) : ReservedClear file := by
  simp only [CompactV3.iterCompactState, bind_ok, Prod.exists, readExact_ok, pure_ok,
    Prod.mk.injEq] at h
  obtain ⟨_, _, _, _, _, _, raw, stream, ⟨hlength, rfl⟩, header', hheader, _, _, states', totals, _,
    hreads, _, _, _, _, rfl, rfl⟩ := h
  obtain ⟨_, hread, _⟩ := valid_of_unpackHeader hheader
  rw [hproduction] at hreads
  exact (reservedClear_append hlength hread stream).mpr (pagesClear_production hreads)

/-! ## A file that has a second encoding -/

/-- One character. -/
def oneCharacter : RosterSource where
  identities := fun _ => [⟨1, 0, 0⟩]
  digest := fun _ => List.replicate 32 0
  length_digest := fun _ => List.length_replicate

/-- Its sign changes between its two samples. -/
def crossing : CharacterState where
  conreyNumber := 1
  primitiveOrdinal := 0
  parity := 0
  sampleCount := 2
  firstDeterminateNumerator := some 0
  firstSign := -1
  lastDeterminateNumerator := some 5
  lastSign := 1
  leadingAmbiguityCount := 0
  trailingAmbiguityCount := 0
  ambiguityCount := 0
  internalSignChangeCount := 1
  ambiguityRanges := []
  bracketRecords := [⟨0, 5, -1, 1, 0⟩]

def crossingHeader : V3Header where
  modeFlags := 3
  q := 3
  pageCharacters := 4096
  countWidth := 1
  primitiveCount := 1
  frameCount := 1
  firstTNumerator := 0
  stopTNumerator := 10
  pageCount := 1
  transitionCount := 1
  ambiguitySampleCount := 0
  ambiguityRangeCount := 0
  debugBracketCount := 1
  leafCount := 1
  leafCommitment := 7
  rosterSha256 := List.replicate 32 0
  sourceBindingSha256 := List.replicate 32 0

/-- The payload of its page, with a reserved byte. -/
def crossingPayload (reserved : UInt8) : Bytes :=
  [29, 0, 0, 0, 0, 1, 0, 0, 0, 0, 0, 0, 0, 0, 0, 0, 0, 5, 0, 0, 0, 0, 0, 0, 0, 255, 1, reserved,
    0, 0, 0, 0, 0, 0, 0, 0, 0, 0, 0, 0, 0]

def crossingHead (reserved : UInt8) : Bytes :=
  (pack PAGE_PREFIX (prefixRecord 0 [crossing] (crossingPayload reserved))).getD []

def crossingPageHeader (reserved : UInt8) : Bytes :=
  (pack PAGE_HEADER (pageRecord 0 [crossing] (crossingPayload reserved)
    (Sha256.digest (PAGE_DOMAIN ++ crossingHead reserved ++ crossingPayload reserved)))).getD []

def crossingPage (reserved : UInt8) : Bytes := crossingPageHeader reserved ++ crossingPayload reserved

def crossingFileHeader : Bytes := (pack ARTIFACT_HEADER crossingHeader.record).getD []

/-- The file. -/
def crossingFile (reserved : UInt8) : Bytes := crossingFileHeader ++ crossingPage reserved

theorem normal_crossing : AllNormal crossingHeader.span true [⟨1, 0, 0⟩] [crossing] :=
  List.Forall₂.cons (@normal_of_normalizeState _ _ _ crossing.raw _ rfl) List.Forall₂.nil

theorem crossingHead_ok (reserved : UInt8) :
    pack PAGE_PREFIX (prefixRecord 0 [crossing] (crossingPayload reserved)) =
      some (crossingHead reserved) := by
  refine pack_getD ?_
  have hrecord : prefixRecord 0 [crossing] (crossingPayload reserved) =
      (0, 1, 1, 41, 1, 0, 0, 1, ()) := rfl
  rw [hrecord]
  simp [Fits]

theorem crossingPageHeader_ok (reserved : UInt8) :
    (crossingPageHeader reserved).length = size PAGE_HEADER ∧
      read PAGE_HEADER (crossingPageHeader reserved) = pageRecord 0 [crossing]
        (crossingPayload reserved)
        (Sha256.digest (PAGE_DOMAIN ++ crossingHead reserved ++ crossingPayload reserved)) := by
  generalize hdigest : Sha256.digest (PAGE_DOMAIN ++ crossingHead reserved ++
    crossingPayload reserved) = digest
  have hlength : digest.length = 32 := by
    rw [← hdigest]
    exact Sha256.length_digest _
  have hrecord : pageRecord 0 [crossing] (crossingPayload reserved) digest =
      (0, 1, 1, 41, 1, 0, 0, 1, digest, ()) := rfl
  have hpack := @pack_getD PAGE_HEADER (pageRecord 0 [crossing] (crossingPayload reserved) digest) (by
    rw [hrecord]
    simp [Fits])
  have hexact : Exact PAGE_HEADER (pageRecord 0 [crossing] (crossingPayload reserved) digest) :=
    ⟨hlength, trivial⟩
  rw [crossingPageHeader, hdigest]
  exact ⟨length_pack hpack, read_of_pack hexact hpack⟩

theorem crossingFileHeader_ok :
    crossingFileHeader.length = size ARTIFACT_HEADER ∧
      read ARTIFACT_HEADER crossingFileHeader = crossingHeader.record := by
  have hpack := @pack_getD ARTIFACT_HEADER crossingHeader.record (by
    simp [Fits, V3Header.record, crossingHeader, ARTIFACT_FORMAT_VERSION])
  exact (packHeader_ok List.length_replicate List.length_replicate).mp (structPack_ok.mpr hpack)

theorem valid_crossingHeader : crossingHeader.Valid where
  samples := rfl
  flags := rfl
  q := by simp [crossingHeader, MAXIMUM_MODULUS]
  pageCharacters := rfl
  countWidth := rfl
  primitiveCount := by simp [crossingHeader]
  frameCount := by simp [crossingHeader]
  pageCount := by simp [crossingHeader, expectedPages, PAGE_CHARACTERS]
  transitions := by simp [crossingHeader, SOURCE_SAMPLE_NUMERATOR]
  ambiguities := by simp [crossingHeader, SOURCE_SAMPLE_NUMERATOR]
  leafCount := by simp [crossingHeader]
  leafCommitment := by simp [crossingHeader, ROLLING_MODULUS]
  brackets := fun h => (by cases h)

theorem length_crossingFile (reserved : UInt8) : (crossingFile reserved).length = 337 := by
  rw [crossingFile, crossingPage, List.length_append, List.length_append, crossingFileHeader_ok.1,
    (crossingPageHeader_ok reserved).1]
  rfl

theorem readPages_crossing {reserved : UInt8}
    (h : decodePage crossingHeader.span true 1 [⟨1, 0, 0⟩] 1 (crossingPayload reserved) =
      .ok ([crossing], totalsOf [crossing])) :
    readPages crossingHeader.span true 1 4096 1 0 [⟨1, 0, 0⟩] (crossingPage reserved) =
      .ok ([crossing], totalsOf [crossing], []) := by
  obtain ⟨hlength, hread⟩ := crossingPageHeader_ok reserved
  have hpage := @readPage_append crossingHeader.span true 1 0 4096 _ _ _ _ _ (by simp [crossingPayload])
    normal_crossing (crossingHead_ok reserved) hlength hread h []
  rw [List.append_nil] at hpage
  exact bind_ok.mpr ⟨_, hpage, bind_ok.mpr ⟨_, rfl, rfl⟩⟩

theorem iterCompactState_crossing {reserved : UInt8}
    (h : decodePage crossingHeader.span true 1 [⟨1, 0, 0⟩] 1 (crossingPayload reserved) =
      .ok ([crossing], totalsOf [crossing])) :
    iterCompactState oneCharacter 4096 4096 (crossingFile reserved) =
      .ok (crossingHeader, [crossing]) := by
  obtain ⟨hlength, hread⟩ := crossingFileHeader_ok
  unfold CompactV3.iterCompactState
  refine bind_ok.mpr ⟨_, rfl, bind_ok.mpr ⟨_, rfl, ?_⟩⟩
  refine bind_ok.mpr ⟨(), failIf_ok.mpr (not_not.mpr ?_), ?_⟩
  · have hsize : size ARTIFACT_HEADER = 208 := rfl
    rw [length_crossingFile, hsize]
    norm_num
  refine bind_ok.mpr ⟨_, readExact_ok.mpr ⟨hlength, rfl⟩, ?_⟩
  refine bind_ok.mpr ⟨_, unpackHeader_of_valid hlength hread valid_crossingHeader, ?_⟩
  refine bind_ok.mpr ⟨(), rfl, ?_⟩
  exact bind_ok.mpr ⟨_, readPages_crossing h, rfl⟩

theorem reservedClear_crossing {reserved : UInt8} :
    ReservedClear (crossingFile reserved) ↔
      clearPayload 5 1 1 (crossingPayload reserved) = crossingPayload reserved := by
  obtain ⟨hlength, hread⟩ := crossingFileHeader_ok
  obtain ⟨hpageLength, hpageRead⟩ := crossingPageHeader_ok reserved
  have hpage := @pageClear_append 1 (crossingPageHeader reserved) (crossingPayload reserved)
    hpageLength (by rw [hpageRead]; rfl) []
  rw [hpageRead, List.append_nil] at hpage
  exact (reservedClear_append hlength hread _).trans ((and_iff_left trivial).trans hpage)

theorem writeCompactState_crossing :
    writeCompactState oneCharacter (argumentsOf crossingHeader 4096 4096) ([crossing].map (·.raw)) =
      .ok (crossingFile 0) := by
  have hclear : ReservedClear (crossingFile 0) := reservedClear_crossing.mpr rfl
  exact (isFile_of_iterCompactState (iterCompactState_crossing rfl) hclear).writeCompactState

/-- A reserved byte is skipped by the reader, so the file is not the writer's. -/
theorem crossing_reserved_byte :
    iterCompactState oneCharacter 4096 4096 (crossingFile 1) = .ok (crossingHeader, [crossing]) ∧
      iterCompactState oneCharacter 4096 4096 (crossingFile 0) = .ok (crossingHeader, [crossing]) ∧
      writeCompactState oneCharacter (argumentsOf crossingHeader 4096 4096)
        ([crossing].map (·.raw)) ≠ .ok (crossingFile 1) := by
  refine ⟨iterCompactState_crossing rfl, iterCompactState_crossing rfl, fun hwrite => ?_⟩
  obtain ⟨_, _, hfile, _⟩ := isFile_of_writeCompactState hwrite
  have hclear := reservedClear_crossing.mp hfile.reservedClear
  revert hclear
  decide

theorem compact_file_canonical_crossing :
    (∃ header states,
      iterCompactState oneCharacter 4096 4096 (crossingFile 0) = .ok (header, states) ∧
        Normalizes ⟨0, 10, (10 - 0) / SOURCE_SAMPLE_NUMERATOR⟩ true [⟨1, 0, 0⟩] [crossing.raw]
          states) ∧
      (writeCompactState oneCharacter (argumentsOf crossingHeader 4096 4096)
        ([crossing].map (·.raw)) = .ok (crossingFile 0) ↔ ReservedClear (crossingFile 0)) := by
  constructor
  · exact (compact_file_canonical oneCharacter).1 (argumentsOf crossingHeader 4096 4096)
      [crossing.raw] (crossingFile 0) writeCompactState_crossing
  · exact (compact_file_canonical oneCharacter).2 4096 4096 (crossingFile 0) crossingHeader
      [crossing] (iterCompactState_crossing rfl)

end AttestedCompute.CompactV3
