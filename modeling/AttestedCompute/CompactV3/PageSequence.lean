import AttestedCompute.CompactV3.File

/-!
# The pages of a file

The pages that the writer writes are the ones that the reader reads, except for the reserved bytes of
the debug brackets, which are written as zeros and skipped by the reader. `ArePages` says what the
pages of normalized states are, and `PagesClear` that their reserved bytes are zeros.
-/

namespace AttestedCompute.CompactV3

open Fallible PackedStruct

theorem readExact_ok {stream raw rest : Bytes} {count : Nat} {label : String} :
    readExact stream count label = .ok (raw, rest) ↔ raw.length = count ∧ stream = raw ++ rest := by
  simp only [readExact, bind_ok, failIf_ok, pure_ok, not_not, Prod.mk.injEq]
  constructor
  · intro h
    obtain ⟨_, hlength, rfl, rfl⟩ := h
    exact ⟨hlength, (List.take_append_drop count stream).symm⟩
  · intro h
    obtain ⟨rfl, rfl⟩ := h
    exact ⟨(), by rw [List.take_left], List.take_left, List.drop_left⟩

/-! ## Where the reserved bytes are -/

/-- The payload length in the page header at the front. -/
def payloadLength (bytes : Bytes) : Nat :=
  (read PAGE_HEADER (bytes.take (size PAGE_HEADER))).2.2.2.1.toNat

/-- The payload of the page at the front. -/
def frontPayload (bytes : Bytes) : Bytes := (bytes.drop (size PAGE_HEADER)).take (payloadLength bytes)

/-- The reserved bytes of the page at the front are zero. -/
def PageClear (countWidth : Nat) (bytes : Bytes) : Prop :=
  clearPayload (4 + countWidth) (read PAGE_HEADER (bytes.take (size PAGE_HEADER))).2.1.toNat
    (read PAGE_HEADER (bytes.take (size PAGE_HEADER))).2.2.1.toNat (frontPayload bytes) =
      frontPayload bytes

theorem payloadLength_append {header : Bytes} (hlength : header.length = size PAGE_HEADER)
    (rest : Bytes) :
    payloadLength (header ++ rest) = (read PAGE_HEADER header).2.2.2.1.toNat := by
  rw [payloadLength, List.take_left' hlength]

/-- Where the reserved bytes of a page are, read off its header. -/
theorem pageClear_append {countWidth : Nat} {header payload : Bytes}
    (hlength : header.length = size PAGE_HEADER)
    (hpayload : payload.length = (read PAGE_HEADER header).2.2.2.1.toNat) (rest : Bytes) :
    PageClear countWidth (header ++ (payload ++ rest)) ↔
      clearPayload (4 + countWidth) (read PAGE_HEADER header).2.1.toNat
        (read PAGE_HEADER header).2.2.1.toNat payload = payload := by
  rw [PageClear, frontPayload, payloadLength_append hlength, List.take_left' hlength,
    List.drop_left' hlength, List.take_left' hpayload]

/-- The reserved bytes of all pages are zero. -/
def PagesClear (countWidth : Nat) : Nat → Bytes → Prop
  | 0, _ => True
  | pages + 1, bytes =>
      PageClear countWidth bytes ∧
        PagesClear countWidth pages (bytes.drop (size PAGE_HEADER + payloadLength bytes))

/-! ## One page -/

/-- The values of a page header. -/
def pageRecord (start : Nat) (states : List CharacterState) (payload digest : Bytes) :
    Record PAGE_HEADER :=
  (start, states.length, (states.countP (·.hasSparse) : Nat), payload.length,
    (totalsOf states).transitions, (totalsOf states).ambiguitySamples,
    (totalsOf states).ambiguityRanges, (totalsOf states).debugBrackets, digest, ())

/-- The values of a page prefix. -/
def prefixRecord (start : Nat) (states : List CharacterState) (payload : Bytes) :
    Record PAGE_PREFIX :=
  (start, states.length, (states.countP (·.hasSparse) : Nat), payload.length,
    (totalsOf states).transitions, (totalsOf states).ambiguitySamples,
    (totalsOf states).ambiguityRanges, (totalsOf states).debugBrackets, ())

theorem pageBytes_ok {countWidth start maximum : Nat} {states : List CharacterState} {page : Bytes}
    {totals : PageTotals} :
    pageBytes countWidth start maximum states = .ok (page, totals) ↔
      totals = totalsOf states ∧ ∃ payload header head, encodePayload countWidth states = .ok payload ∧
        payload.length ≤ maximum ∧
        pack PAGE_PREFIX (prefixRecord start states payload) = some head ∧
        header.length = size PAGE_HEADER ∧
        read PAGE_HEADER header = pageRecord start states payload
          (Sha256.digest (PAGE_DOMAIN ++ head ++ payload)) ∧
        page = header ++ payload := by
  have hexact : ∀ payload head : Bytes, Exact PAGE_HEADER (pageRecord start states payload
      (Sha256.digest (PAGE_DOMAIN ++ head ++ payload))) :=
    fun payload head => ⟨Sha256.length_digest _, trivial⟩
  simp only [pageBytes, bind_ok, failIf_ok, not_lt, pure_ok, Prod.mk.injEq, structPack_ok]
  constructor
  · intro h
    obtain ⟨payload, hpayload, _, hmaximum, head, hhead, header, hheader, rfl, rfl⟩ := h
    obtain ⟨hlength, _, hread⟩ := (pack_eq_some (hexact payload head)).mp hheader
    exact ⟨rfl, payload, header, head, hpayload, hmaximum, hhead, hlength, hread, rfl⟩
  · intro h
    obtain ⟨rfl, payload, header, head, hpayload, hmaximum, hhead, hlength, hread, rfl⟩ := h
    exact ⟨payload, hpayload, (), hmaximum, head, hhead, header,
      (pack_eq_some (hexact payload head)).mpr ⟨hlength, trivial, hread⟩, rfl, rfl⟩

/-- The length of a page is in its header. -/
theorem length_pageBytes {countWidth start maximum : Nat} {states : List CharacterState}
    {page : Bytes} {totals : PageTotals}
    (h : pageBytes countWidth start maximum states = .ok (page, totals)) (rest : Bytes) :
    page.length = size PAGE_HEADER + payloadLength (page ++ rest) := by
  obtain ⟨_, payload, header, head, _, _, _, hlength, hread, rfl⟩ := pageBytes_ok.mp h
  rw [payloadLength, List.append_assoc, List.take_left' hlength, hread, List.length_append, hlength]
  rfl

/-! ## The bounds of a page header -/

theorem normalizeRange_count {span : Span} {previousStop : Option Int} {raw range : AmbiguityRange}
    {count : Int} (h : normalizeRange span previousStop raw = .ok (range, count)) : 0 ≤ count := by
  simp only [normalizeRange, bind_ok, uint_ok, failIf_ok, not_or, not_not, pure_ok,
    Prod.mk.injEq] at h
  obtain ⟨first, _, stop, _, _, ⟨⟨_, hlt, _⟩, _⟩, _, rfl⟩ := h
  unfold SOURCE_SAMPLE_NUMERATOR
  omega

theorem normalizeRanges_total {span : Span} {previousStop : Option Int}
    {raw ranges : List AmbiguityRange} {total : Int}
    (h : normalizeRanges span previousStop raw = .ok (ranges, total)) : 0 ≤ total := by
  induction raw generalizing previousStop ranges total with
  | nil =>
      cases h
      exact le_rfl
  | cons range raw ih =>
      simp only [normalizeRanges, bind_ok, Prod.exists, pure_ok, Prod.mk.injEq] at h
      obtain ⟨_, _, hrange, _, _, hrest, _, rfl⟩ := h
      have := normalizeRange_count hrange
      have := ih hrest
      omega

theorem Normal.transition_le {span : Span} {debug : Bool} {identity : Identity}
    {s : CharacterState} (h : Normal span debug identity s) :
    s.internalSignChangeCount ≤ max 0 (span.samples - 1) := by
  have hcheck := h.parityOfSigns
  simp only [checkTransition, failIf_ok, not_or, not_lt] at hcheck
  have hnonneg := normalizeRanges_total h.ranges
  rw [h.ambiguityCount_eq] at hnonneg
  omega

/-- A sum of bounded terms. -/
theorem sum_le_of_forall {bound : Int} {xs : List Int} (h : ∀ x ∈ xs, x ≤ bound) :
    xs.sum ≤ xs.length * bound := by
  have hsum := List.sum_le_card_nsmul xs bound h
  rwa [nsmul_eq_mul] at hsum

theorem AllNormal.of_forall {P : CharacterState → Prop} {span : Span} {debug : Bool}
    {identities : List Identity} {states : List CharacterState}
    (hP : ∀ identity s, Normal span debug identity s → P s)
    (h : AllNormal span debug identities states) : ∀ s ∈ states, P s := by
  induction h with
  | nil => exact fun s hs => (by cases hs)
  | cons hnormal _ ih =>
      intro s hs
      rcases List.mem_cons.mp hs with rfl | hs
      · exact hP _ s hnormal
      · exact ih s hs

theorem AllNormal.transitions_le {span : Span} {debug : Bool} {identities : List Identity}
    {states : List CharacterState} (h : AllNormal span debug identities states) :
    (totalsOf states).transitions ≤ identities.length * max 0 (span.samples - 1) := by
  have hle := @sum_le_of_forall (max 0 (span.samples - 1))
    (states.map (·.internalSignChangeCount)) (by
      intro x hx
      obtain ⟨s, hs, rfl⟩ := List.mem_map.mp hx
      exact h.of_forall (fun _ _ => Normal.transition_le) s hs)
  rwa [List.length_map, ← h.length_eq] at hle

theorem AllNormal.ambiguities_le {span : Span} {debug : Bool} {identities : List Identity}
    {states : List CharacterState} (h : AllNormal span debug identities states) :
    (totalsOf states).ambiguitySamples ≤ identities.length * span.samples := by
  have hle := @sum_le_of_forall span.samples (states.map (·.ambiguityCount)) (by
      intro x hx
      obtain ⟨s, hs, rfl⟩ := List.mem_map.mp hx
      exact h.of_forall (fun _ _ hs => hs.count) s hs)
  rwa [List.length_map, ← h.length_eq] at hle

theorem AllNormal.production {span : Span} {debug : Bool} {identities : List Identity}
    {states : List CharacterState} (h : AllNormal span debug identities states)
    (hdebug : debug = false) : (totalsOf states).debugBrackets = 0 := by
  refine List.sum_eq_zero ?_
  intro x hx
  obtain ⟨s, hs, rfl⟩ := List.mem_map.mp hx
  rw [h.of_forall (fun _ _ hs => hs.production hdebug) s hs]
  rfl

/-! ## Reading a page -/

theorem readPage_sound {span : Span} {debug : Bool} {countWidth start : Nat} {maximumPayload : Int}
    {identities : List Identity} {stream rest : Bytes} {states : List CharacterState}
    {totals : PageTotals}
    (h : readPage span debug countWidth maximumPayload start identities stream =
      .ok (states, totals, rest)) :
    AllNormal span debug identities states ∧ totals = totalsOf states ∧
      ∃ page, stream = page ++ rest ∧ page.length = size PAGE_HEADER + payloadLength stream ∧
        (pageBytes countWidth start maximumPayload.toNat states = .ok (page, totals) ↔
          PageClear countWidth stream) := by
  simp only [readPage, bind_ok, Prod.exists, readExact_ok] at h
  obtain ⟨rawHeader, stream', ⟨hlength, rfl⟩, h⟩ := h
  rcases hrecord : read PAGE_HEADER rawHeader with ⟨ordinalStart, characters, sparse, payloadBytes,
    transitions, ambiguities, ranges, brackets, rawSha256, ⟨⟩⟩
  have hnonneg : 0 ≤ sparse ∧ 0 ≤ payloadBytes := by
    have hsparse : 0 ≤ (read PAGE_HEADER rawHeader).2.2.1 := Int.natCast_nonneg _
    have hpayload : 0 ≤ (read PAGE_HEADER rawHeader).2.2.2.1 := Int.natCast_nonneg _
    rw [hrecord] at hsparse hpayload
    exact ⟨hsparse, hpayload⟩
  simp only [hrecord, failIf_ok, not_or, not_not, not_lt, structPack_ok, pure_ok,
    Prod.mk.injEq] at h
  obtain ⟨_, ⟨rfl, rfl, _, hmaximum, _⟩, payload, rest', ⟨hpayload, rfl⟩, head, hhead, _, rfl,
    states', totals', hdecode, _, rfl, rfl, rfl, rfl⟩ := h
  obtain ⟨hnormal, hsparse, htotals, hencode⟩ := encodePayload_decodePage hdecode
  obtain ⟨sparse, rfl⟩ := Int.eq_ofNat_of_zero_le hnonneg.1
  obtain ⟨bytes, rfl⟩ := Int.eq_ofNat_of_zero_le hnonneg.2
  rw [Int.toNat_natCast] at hsparse hpayload hencode
  subst hsparse hpayload
  have hclear := @pageClear_append countWidth rawHeader payload hlength (by rw [hrecord]; rfl) rest'
  simp only [hrecord, Int.toNat_natCast] at hclear
  refine ⟨hnormal, htotals, rawHeader ++ payload, (List.append_assoc _ _ _).symm, ?_, ?_⟩
  · rw [List.length_append, hlength, payloadLength_append hlength, hrecord]
    rfl
  rw [hclear, pageBytes_ok]
  constructor
  · intro hpage
    obtain ⟨_, payload', header', _, hencode', _, _, hlength', _, happend⟩ := hpage
    rw [hencode'] at hencode
    obtain ⟨_, rfl⟩ := List.append_inj happend (hlength.trans hlength'.symm)
    exact (Except.ok.inj hencode).symm
  · intro hpayload
    rw [hpayload] at hencode
    refine ⟨htotals, payload, rawHeader, head, hencode, by omega, ?_, hlength, ?_, rfl⟩
    · rw [prefixRecord, ← htotals, ← hnormal.length_eq]
      exact hhead
    · rw [pageRecord, ← htotals, ← hnormal.length_eq]
      exact hrecord

/-- A header and a payload that is decoded make a page that is read. -/
theorem readPage_append {span : Span} {debug : Bool} {countWidth start : Nat}
    {maximumPayload : Int} {identities : List Identity} {states : List CharacterState}
    {header head payload : Bytes} (hmaximum : (payload.length : Int) ≤ maximumPayload)
    (hnormal : AllNormal span debug identities states)
    (hhead : pack PAGE_PREFIX (prefixRecord start states payload) = some head)
    (hlength : header.length = size PAGE_HEADER)
    (hread : read PAGE_HEADER header =
      pageRecord start states payload (Sha256.digest (PAGE_DOMAIN ++ head ++ payload)))
    (hdecode : decodePage span debug countWidth identities (states.countP (·.hasSparse)) payload =
      .ok (states, totalsOf states)) (rest : Bytes) :
    readPage span debug countWidth maximumPayload start identities (header ++ payload ++ rest) =
      .ok (states, totalsOf states, rest) := by
  unfold readPage
  refine bind_ok.mpr ⟨_, readExact_ok.mpr ⟨hlength, List.append_assoc _ _ _⟩, ?_⟩
  simp only [hread, pageRecord]
  refine bind_ok.mpr ⟨(), failIf_ok.mpr ?_, ?_⟩
  · have hsparse : states.countP (·.hasSparse) ≤ states.length := List.countP_le_length
    have htransitions := hnormal.transitions_le
    have hambiguities := hnormal.ambiguities_le
    rw [hnormal.length_eq] at htransitions hambiguities
    simp only [not_or, not_lt, not_and, not_not]
    exact ⟨trivial, by rw [hnormal.length_eq], by omega, hmaximum, htransitions, hambiguities,
      hnormal.production⟩
  refine bind_ok.mpr ⟨_, readExact_ok.mpr ⟨rfl, rfl⟩, ?_⟩
  refine bind_ok.mpr ⟨_, structPack_ok.mpr hhead, ?_⟩
  refine bind_ok.mpr ⟨(), failIf_ok.mpr (not_not.mpr rfl), ?_⟩
  refine bind_ok.mpr ⟨_, hdecode, ?_⟩
  exact bind_ok.mpr ⟨(), failIf_ok.mpr (not_not.mpr rfl), rfl⟩

/-- **Reading a page that was written.** -/
theorem readPage_pageBytes {span : Span} {debug : Bool} {countWidth start : Nat}
    {maximumPayload : Int} {identities : List Identity} {states : List CharacterState}
    {page : Bytes} {totals : PageTotals} (hmaximum : 0 ≤ maximumPayload)
    (hnormal : AllNormal span debug identities states)
    (h : pageBytes countWidth start maximumPayload.toNat states = .ok (page, totals)) (rest : Bytes) :
    readPage span debug countWidth maximumPayload start identities (page ++ rest) =
      .ok (states, totals, rest) := by
  obtain ⟨rfl, payload, header, head, hencode, hpayload, hhead, hlength, hread, rfl⟩ :=
    pageBytes_ok.mp h
  exact readPage_append (by omega) hnormal hhead hlength hread
    (decodePage_encodePayload hnormal hencode) rest

/-! ## All pages -/

/-- The states are the rows, normalized for the characters. -/
inductive Normalizes (span : Span) (debug : Bool) :
    List Identity → List RawState → List CharacterState → Prop
  | nil : Normalizes span debug [] [] []
  | cons {identity : Identity} {row : RawState} {s : CharacterState} {identities : List Identity}
      {rows : List RawState} {states : List CharacterState} :
      normalizeState span debug identity row = .ok s → Normalizes span debug identities rows states →
        Normalizes span debug (identity :: identities) (row :: rows) (s :: states)

theorem Normalizes.allNormal {span : Span} {debug : Bool} {identities : List Identity}
    {rows : List RawState} {states : List CharacterState}
    (h : Normalizes span debug identities rows states) : AllNormal span debug identities states := by
  induction h with
  | nil => exact List.Forall₂.nil
  | cons hstate _ ih => exact List.Forall₂.cons (normal_of_normalizeState hstate) ih

theorem Normalizes.append {span : Span} {debug : Bool} {identities identities' : List Identity}
    {rows rows' : List RawState} {states states' : List CharacterState}
    (h : Normalizes span debug identities rows states)
    (h' : Normalizes span debug identities' rows' states') :
    Normalizes span debug (identities ++ identities') (rows ++ rows') (states ++ states') := by
  induction h with
  | nil => exact h'
  | cons hstate _ ih => exact Normalizes.cons hstate ih

theorem AllNormal.normalizes {span : Span} {debug : Bool} {identities : List Identity}
    {states : List CharacterState} (h : AllNormal span debug identities states) :
    Normalizes span debug identities (states.map (·.raw)) states := by
  induction h with
  | nil => exact Normalizes.nil
  | cons hnormal _ ih => exact Normalizes.cons hnormal.normalizeState ih

theorem normalizePage_ok {span : Span} {debug : Bool} {identities : List Identity}
    {rows rest : List RawState} {states : List CharacterState} :
    normalizePage span debug identities rows = .ok (states, rest) ↔
      ∃ front, rows = front ++ rest ∧ Normalizes span debug identities front states := by
  induction identities generalizing rows rest states with
  | nil =>
      rw [normalizePage, pure_ok, Prod.mk.injEq]
      constructor
      · intro h
        obtain ⟨rfl, rfl⟩ := h
        exact ⟨[], rfl, Normalizes.nil⟩
      · intro h
        obtain ⟨_, rfl, h⟩ := h
        cases h
        exact ⟨rfl, rfl⟩
  | cons identity identities ih =>
      cases rows with
      | nil =>
          constructor
          · intro h
            cases h
          · intro h
            obtain ⟨_, hrows, h⟩ := h
            cases h
            cases hrows
      | cons row rows =>
          simp only [normalizePage, bind_ok, Prod.exists, pure_ok, Prod.mk.injEq, ih]
          constructor
          · intro h
            obtain ⟨s, hstate, states, _, ⟨front, rfl, hrest⟩, rfl, rfl⟩ := h
            exact ⟨row :: front, rfl, Normalizes.cons hstate hrest⟩
          · intro h
            obtain ⟨_, hrows, h⟩ := h
            cases h with
            | cons hstate hrest =>
                obtain ⟨rfl, rfl⟩ := List.cons.inj hrows
                exact ⟨_, hstate, _, _, ⟨_, rfl, hrest⟩, rfl, rfl⟩

/-- The bytes are the pages of the states. -/
def ArePages (span : Span) (debug : Bool) (countWidth maximum : Nat) :
    Nat → Nat → List Identity → List CharacterState → Bytes → Prop
  | 0, _, _, states, bytes => states = [] ∧ bytes = []
  | pages + 1, start, identities, states, bytes =>
      ∃ first more page bytes', states = first ++ more ∧ bytes = page ++ bytes' ∧
        AllNormal span debug (identities.take PAGE_CHARACTERS) first ∧
        pageBytes countWidth start maximum first = .ok (page, totalsOf first) ∧
        ArePages span debug countWidth maximum pages (start + PAGE_CHARACTERS)
          (identities.drop PAGE_CHARACTERS) more bytes'

theorem totalsOf_append (first more : List CharacterState) :
    totalsOf (first ++ more) = addTotals (totalsOf first) (totalsOf more) := by
  simp only [totalsOf, addTotals, List.map_append, List.sum_append]

/-- The writer writes pages. -/
theorem arePages_of_writePages {span : Span} {debug : Bool} {countWidth pages start : Nat}
    {maximumBytes maximumPayload written : Int} {identities : List Identity}
    {rows rest : List RawState} {bytes : Bytes} {totals : PageTotals}
    (hfits : identities.length ≤ pages * PAGE_CHARACTERS)
    (h : writePages span debug countWidth maximumBytes maximumPayload pages start identities rows
      written = .ok (bytes, totals, rest)) :
    ∃ front states, rows = front ++ rest ∧ Normalizes span debug identities front states ∧
      ArePages span debug countWidth maximumPayload.toNat pages start identities states bytes ∧
      totals = totalsOf states ∧ (0 < pages → written + bytes.length ≤ maximumBytes) := by
  induction pages generalizing start identities rows written bytes totals with
  | zero =>
      obtain rfl : identities = [] := List.eq_nil_of_length_eq_zero (by omega)
      cases h
      exact ⟨[], [], rfl, Normalizes.nil, ⟨rfl, rfl⟩, rfl, fun h => absurd h (lt_irrefl 0)⟩
  | succ pages ih =>
      simp only [writePages, bind_ok, Prod.exists, failIf_ok, not_lt, pure_ok, Prod.mk.injEq,
        normalizePage_ok] at h
      obtain ⟨first, _, ⟨front, rfl, hfront⟩, page, _, hpage, _, hbound, bytes', _, _, hmore, rfl, rfl,
        rfl⟩ := h
      obtain rfl := (pageBytes_ok.mp hpage).1
      have hdrop : (identities.drop PAGE_CHARACTERS).length ≤ pages * PAGE_CHARACTERS := by
        rw [List.length_drop]
        rw [Nat.succ_mul] at hfits
        omega
      obtain ⟨front', more, rfl, hmoreRows, hpages, rfl, hmoreBound⟩ := ih hdrop hmore
      refine ⟨front ++ front', first ++ more, (List.append_assoc _ _ _).symm, ?_,
        ⟨first, more, page, bytes', rfl, rfl, hfront.allNormal, hpage, hpages⟩,
        (totalsOf_append first more).symm, fun _ => ?_⟩
      · have hall := hfront.append hmoreRows
        rwa [List.take_append_drop] at hall
      · -- the bound of the last page is the bound of the file
        rw [List.length_append]
        cases pages with
        | zero =>
            obtain ⟨_, rfl⟩ := hpages
            push_cast
            rw [List.length_nil]
            omega
        | succ pages =>
            have := hmoreBound (Nat.succ_pos _)
            push_cast
            omega

/-- Pages are what the writer writes. -/
theorem writePages_of_arePages {span : Span} {debug : Bool} {countWidth pages start : Nat}
    {maximumBytes maximumPayload written : Int} {identities : List Identity}
    {states : List CharacterState} {bytes : Bytes}
    (h : ArePages span debug countWidth maximumPayload.toNat pages start identities states bytes)
    (hbound : written + bytes.length ≤ maximumBytes) (rest : List RawState) :
    writePages span debug countWidth maximumBytes maximumPayload pages start identities
      (states.map (·.raw) ++ rest) written = .ok (bytes, totalsOf states, rest) := by
  induction pages generalizing start identities states bytes written with
  | zero =>
      obtain ⟨rfl, rfl⟩ := h
      rfl
  | succ pages ih =>
      obtain ⟨first, more, page, bytes', rfl, rfl, hnormal, hpage, hpages⟩ := h
      rw [List.length_append] at hbound
      push_cast at hbound
      have hmore := @ih (start + PAGE_CHARACTERS) (written + page.length) _ more bytes' hpages
        (by omega)
      unfold writePages
      rw [List.map_append, List.append_assoc]
      refine bind_ok.mpr ⟨_, normalizePage_ok.mpr ⟨_, rfl, hnormal.normalizes⟩, ?_⟩
      refine bind_ok.mpr ⟨_, hpage, ?_⟩
      refine bind_ok.mpr ⟨(), failIf_ok.mpr (by omega), ?_⟩
      refine bind_ok.mpr ⟨_, hmore, ?_⟩
      rw [totalsOf_append]
      rfl

theorem le_expectedPages (count : Nat) : count ≤ (expectedPages count).toNat * PAGE_CHARACTERS := by
  unfold expectedPages PAGE_CHARACTERS
  omega

theorem length_of_arePages {span : Span} {debug : Bool} {countWidth maximum pages start : Nat}
    {identities : List Identity} {states : List CharacterState} {bytes : Bytes}
    (hfits : identities.length ≤ pages * PAGE_CHARACTERS)
    (h : ArePages span debug countWidth maximum pages start identities states bytes) :
    states.length = identities.length := by
  induction pages generalizing start identities states bytes with
  | zero =>
      obtain ⟨rfl, _⟩ := h
      exact (Nat.le_zero.mp (hfits.trans_eq (Nat.zero_mul _))).symm
  | succ pages ih =>
      obtain ⟨first, more, _, _, rfl, _, hnormal, _, hpages⟩ := h
      have hdrop : (identities.drop PAGE_CHARACTERS).length ≤ pages * PAGE_CHARACTERS := by
        rw [List.length_drop]
        rw [Nat.succ_mul] at hfits
        omega
      rw [List.length_append, ih hdrop hpages, ← hnormal.length_eq, ← List.length_append,
        List.take_append_drop]

/-- Pages are read. -/
theorem readPages_of_arePages {span : Span} {debug : Bool} {countWidth pages start : Nat}
    {maximumPayload : Int} {identities : List Identity} {states : List CharacterState}
    {bytes : Bytes} (hmaximum : 0 ≤ maximumPayload)
    (h : ArePages span debug countWidth maximumPayload.toNat pages start identities states bytes)
    (rest : Bytes) :
    readPages span debug countWidth maximumPayload pages start identities (bytes ++ rest) =
      .ok (states, totalsOf states, rest) := by
  induction pages generalizing start identities states bytes with
  | zero =>
      obtain ⟨rfl, rfl⟩ := h
      rfl
  | succ pages ih =>
      obtain ⟨first, more, page, bytes', rfl, rfl, hnormal, hpage, hpages⟩ := h
      unfold readPages
      rw [List.append_assoc]
      refine bind_ok.mpr ⟨_, readPage_pageBytes hmaximum hnormal hpage _, ?_⟩
      refine bind_ok.mpr ⟨_, ih hpages, ?_⟩
      rw [totalsOf_append]
      rfl

/-- Pages have zeros in their reserved bytes. -/
theorem pagesClear_of_arePages {span : Span} {debug : Bool} {countWidth pages start : Nat}
    {maximumPayload : Int} {identities : List Identity} {states : List CharacterState}
    {bytes : Bytes} (hmaximum : 0 ≤ maximumPayload)
    (h : ArePages span debug countWidth maximumPayload.toNat pages start identities states bytes)
    (rest : Bytes) : PagesClear countWidth pages (bytes ++ rest) := by
  induction pages generalizing start identities states bytes with
  | zero => trivial
  | succ pages ih =>
      obtain ⟨first, more, page, bytes', rfl, rfl, hnormal, hpage, hpages⟩ := h
      have hread := readPage_pageBytes hmaximum hnormal hpage (bytes' ++ rest)
      obtain ⟨_, _, page', happend, _, hclear⟩ := readPage_sound hread
      obtain rfl := List.append_cancel_right happend
      rw [List.append_assoc]
      refine ⟨hclear.mp hpage, ?_⟩
      rw [← length_pageBytes hpage, List.drop_left]
      exact ih hpages

/-- What is read as pages is pages, if the reserved bytes are zeros. -/
theorem readPages_sound {span : Span} {debug : Bool} {countWidth pages start : Nat}
    {maximumPayload : Int} {identities : List Identity} {stream rest : Bytes}
    {states : List CharacterState} {totals : PageTotals}
    (h : readPages span debug countWidth maximumPayload pages start identities stream =
      .ok (states, totals, rest)) :
    totals = totalsOf states ∧ ∃ bytes, stream = bytes ++ rest ∧
      (PagesClear countWidth pages stream →
        ArePages span debug countWidth maximumPayload.toNat pages start identities states bytes) := by
  induction pages generalizing start identities stream states totals with
  | zero =>
      cases h
      exact ⟨rfl, [], rfl, fun _ => ⟨rfl, rfl⟩⟩
  | succ pages ih =>
      simp only [readPages, bind_ok, Prod.exists, pure_ok, Prod.mk.injEq] at h
      obtain ⟨first, _, stream', hpage, more, _, _, hmore, rfl, rfl, rfl⟩ := h
      obtain ⟨hnormal, rfl, page, rfl, hlength, hclear⟩ := readPage_sound hpage
      obtain ⟨rfl, bytes', rfl, hpages⟩ := ih hmore
      refine ⟨(totalsOf_append first more).symm, page ++ bytes', (List.append_assoc _ _ _).symm,
        fun hzeros => ?_⟩
      have hrest := hzeros.2
      rw [← hlength, List.drop_left] at hrest
      exact ⟨first, more, page, bytes', rfl, rfl, hnormal, hclear.mpr hzeros.1, hpages hrest⟩

end AttestedCompute.CompactV3
