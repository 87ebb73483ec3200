import AttestedCompute.CompactV3.PageFormat

/-!
# Sparse rows

A sparse row is read exactly as it is written, except for the six reserved bytes of a debug bracket:
they are written as zeros and skipped by the reader. `clearRows` zeroes them.
-/

namespace AttestedCompute.CompactV3

open Fallible PackedStruct

/-! ## The reserved bytes -/

/-- Bracket records with their reserved bytes zeroed. -/
def clearBrackets : Nat → Bytes → Bytes
  | 0, bytes => bytes
  | count + 1, bytes =>
      clearPads DEBUG_BRACKET_RECORD (bytes.take (size DEBUG_BRACKET_RECORD))
        ++ clearBrackets count (bytes.drop (size DEBUG_BRACKET_RECORD))

/-- The counts in the header of a row. -/
def rowCounts (bytes : Bytes) : Nat × Nat :=
  let (rangeCount, bracketCount, _) := read SPARSE_ROW_HEADER (bytes.take (size SPARSE_ROW_HEADER))
  (rangeCount.toNat, bracketCount.toNat)

/-- The bytes of a row before its bracket records. -/
def rowFront (bytes : Bytes) : Nat :=
  size SPARSE_ROW_HEADER + (rowCounts bytes).1 * size AMBIGUITY_RANGE_RECORD

/-- A row with the reserved bytes of its brackets zeroed. -/
def clearRow (row : Bytes) : Bytes :=
  row.take (rowFront row) ++ clearBrackets (rowCounts row).2 (row.drop (rowFront row))

/-- The length of the row at the front. -/
def rowLength (bytes : Bytes) : Nat :=
  rowFront bytes + (rowCounts bytes).2 * size DEBUG_BRACKET_RECORD

/-- Rows with the reserved bytes of their brackets zeroed. -/
def clearRows : Nat → Bytes → Bytes
  | 0, bytes => bytes
  | count + 1, bytes =>
      clearRow (bytes.take (rowLength bytes)) ++ clearRows count (bytes.drop (rowLength bytes))

/-! ## Ranges -/

theorem packRange_ok {range : AmbiguityRange} {bytes : Bytes} :
    packRange range = .ok bytes ↔
      bytes.length = size AMBIGUITY_RANGE_RECORD ∧
        read AMBIGUITY_RANGE_RECORD bytes = (range.firstTNumerator, range.stopTNumerator, ()) := by
  have hexact : Exact AMBIGUITY_RANGE_RECORD (range.firstTNumerator, range.stopTNumerator, ()) :=
    trivial
  rw [packRange, structPack_ok, pack_eq_some hexact]
  exact ⟨fun h => ⟨h.1, h.2.2⟩, fun h => ⟨h.1, trivial, h.2⟩⟩

theorem packAll_cons_ok {α : Type} {packOne : α → Checked Bytes} {x : α} {xs : List α}
    {bytes : Bytes} :
    packAll packOne (x :: xs) = .ok bytes ↔
      ∃ first, packOne x = .ok first ∧ ∃ rest, packAll packOne xs = .ok rest ∧
        first ++ rest = bytes := by
  simp only [packAll, bind_ok, pure_ok]

theorem length_packAll {α : Type} {packOne : α → Checked Bytes} {width : Nat}
    (hone : ∀ x bytes, packOne x = .ok bytes → bytes.length = width) {xs : List α} {bytes : Bytes}
    (h : packAll packOne xs = .ok bytes) : bytes.length = xs.length * width := by
  induction xs generalizing bytes with
  | nil =>
      cases h
      rw [List.length_nil, List.length_nil, Nat.zero_mul]
  | cons x xs ih =>
      obtain ⟨first, hfirst, rest, hrest, rfl⟩ := packAll_cons_ok.mp h
      rw [List.length_append, hone x first hfirst, ih hrest, List.length_cons, Nat.succ_mul,
        Nat.add_comm]

/-- **Ranges.** What is read as ranges is the packed ranges, in full. -/
theorem decodeRanges_ok {span : Span} {count : Nat} {previousStop : Option Int}
    {bytes rest : Bytes} {ranges : List AmbiguityRange} :
    decodeRanges span count previousStop bytes = .ok (ranges, rest) ↔
      ranges.length = count ∧
        (∃ total, normalizeRanges span previousStop ranges = .ok (ranges, total)) ∧
        ∃ body, packAll packRange ranges = .ok body ∧ bytes = body ++ rest := by
  induction count generalizing previousStop bytes rest ranges with
  | zero =>
      rw [decodeRanges, pure_ok, Prod.mk.injEq, List.length_eq_zero_iff]
      constructor
      · intro h
        obtain ⟨rfl, rfl⟩ := h
        exact ⟨rfl, ⟨0, rfl⟩, [], rfl, rfl⟩
      · intro h
        obtain ⟨rfl, _, body, hbody, rfl⟩ := h
        cases hbody
        exact ⟨rfl, rfl⟩
  | succ count ih =>
      simp only [decodeRanges, bind_ok, failIf_ok, not_lt, pure_ok, Prod.exists, Prod.mk.injEq, ih]
      constructor
      · intro h
        obtain ⟨_, hlength, range, samples, hrange, _, _,
          ⟨rfl, ⟨total, hnormal⟩, body, hbody, hbytes⟩, rfl, rfl⟩ := h
        have hraw := (normalizeRange_ok hrange).1
        have hwidth : (bytes.take (size AMBIGUITY_RANGE_RECORD)).length =
            size AMBIGUITY_RANGE_RECORD := by
          rw [List.length_take]
          omega
        refine ⟨rfl, ⟨samples + total, ?_⟩, _, packAll_cons_ok.mpr ⟨_, packRange_ok.mpr
          ⟨hwidth, ?_⟩, _, hbody, rfl⟩, ?_⟩
        · simp only [normalizeRanges, bind_ok, Prod.exists, pure_ok, Prod.mk.injEq]
          rw [← hraw] at hrange
          exact ⟨range, samples, hrange, _, total, hnormal, rfl, rfl⟩
        · rw [hraw]
        · rw [List.append_assoc, ← hbytes, List.take_append_drop]
      · intro h
        obtain ⟨hcount, ⟨total, hnormal⟩, _, hall, rfl⟩ := h
        cases ranges with
        | nil => cases hcount
        | cons range ranges =>
            obtain ⟨first, hfirst, body, hbody, rfl⟩ := packAll_cons_ok.mp hall
            obtain ⟨hwidth, hread⟩ := packRange_ok.mp hfirst
            simp only [normalizeRanges, bind_ok, Prod.exists, pure_ok, Prod.mk.injEq,
              List.cons.injEq] at hnormal
            obtain ⟨_, samples, hrange, _, _, hnormal, ⟨rfl, rfl⟩, rfl⟩ := hnormal
            rw [← hwidth, List.append_assoc, List.take_left, List.drop_left, hread]
            refine ⟨(), ?_, _, samples, hrange, _, rest, ⟨?_, ⟨_, hnormal⟩, body, hbody, rfl⟩,
              rfl, rfl⟩
            · rw [List.length_append]
              omega
            · exact Nat.succ_injective hcount

/-! ## Brackets -/

/-- A bracket is packed to the cleared form of whatever reads as it. -/
theorem packBracket_clear {bracket : DebugBracket} {bytes : Bytes}
    (hlength : bytes.length = size DEBUG_BRACKET_RECORD) :
    packBracket bracket = .ok (clearPads DEBUG_BRACKET_RECORD bytes) ↔
      read DEBUG_BRACKET_RECORD bytes = (bracket.lowerTNumerator, bracket.upperTNumerator,
        bracket.lowerSign, bracket.upperSign, bracket.interveningAmbiguityCount, ()) := by
  have hclear := pack_read_clear hlength
  rw [packBracket, structPack_ok]
  constructor
  · intro h
    have hexact : ∀ record : Record DEBUG_BRACKET_RECORD, Exact DEBUG_BRACKET_RECORD record :=
      fun _ => trivial
    rw [← read_of_pack (hexact _) hclear]
    exact read_of_pack (hexact _) h
  · intro h
    rw [← h]
    exact hclear

theorem length_packBracket {bracket : DebugBracket} {bytes : Bytes}
    (h : packBracket bracket = .ok bytes) : bytes.length = size DEBUG_BRACKET_RECORD :=
  length_pack (structPack_ok.mp h)

/-- **Brackets.** What is read as brackets packs to its cleared form. -/
theorem decodeBrackets_ok {span : Span} {ranges : List AmbiguityRange} {count : Nat}
    {previous : Option DebugBracket} {bytes rest : Bytes} {brackets : List DebugBracket} :
    decodeBrackets span ranges count previous bytes = .ok (brackets, rest) ↔
      brackets.length = count ∧ normalizeBrackets span ranges previous brackets = .ok brackets ∧
        ∃ body : Bytes, body.length = count * size DEBUG_BRACKET_RECORD ∧
          packAll packBracket brackets = .ok (clearBrackets count body) ∧ bytes = body ++ rest := by
  induction count generalizing previous bytes rest brackets with
  | zero =>
      rw [decodeBrackets, pure_ok, Prod.mk.injEq, List.length_eq_zero_iff]
      constructor
      · intro h
        obtain ⟨rfl, rfl⟩ := h
        exact ⟨rfl, rfl, [], rfl, rfl, rfl⟩
      · intro h
        obtain ⟨rfl, _, body, hlength, _, rfl⟩ := h
        rw [Nat.zero_mul, List.length_eq_zero_iff] at hlength
        rw [hlength]
        exact ⟨rfl, rfl⟩
  | succ count ih =>
      simp only [decodeBrackets, bind_ok, failIf_ok, not_lt, pure_ok, Prod.exists, Prod.mk.injEq, ih]
      constructor
      · intro h
        obtain ⟨_, hlength, bracket, hbracket, _, _,
          ⟨rfl, hnormal, body, hwidth, hbody, hbytes⟩, rfl, rfl⟩ := h
        have hraw := normalizeDebugBracket_ok hbracket
        have hfront : (bytes.take (size DEBUG_BRACKET_RECORD)).length =
            size DEBUG_BRACKET_RECORD := by
          rw [List.length_take]
          omega
        refine ⟨rfl, ?_, bytes.take (size DEBUG_BRACKET_RECORD) ++ body, ?_, ?_, ?_⟩
        · simp only [normalizeBrackets, bind_ok, pure_ok]
          rw [← hraw] at hbracket
          exact ⟨bracket, hbracket, _, hnormal, rfl⟩
        · rw [List.length_append, hfront, hwidth, Nat.succ_mul, Nat.add_comm]
        · rw [clearBrackets]
          rw [List.take_left' hfront, List.drop_left' hfront]
          refine packAll_cons_ok.mpr ⟨_, (packBracket_clear hfront).mpr ?_, _, hbody, rfl⟩
          rw [hraw]
        · rw [List.append_assoc, ← hbytes, List.take_append_drop]
      · intro h
        obtain ⟨hcount, hnormal, whole, hwidth, hall, rfl⟩ := h
        cases brackets with
        | nil => cases hcount
        | cons bracket brackets =>
            rw [Nat.succ_mul] at hwidth
            have hfront : (whole.take (size DEBUG_BRACKET_RECORD)).length =
                size DEBUG_BRACKET_RECORD := by
              rw [List.length_take]
              omega
            obtain ⟨first, hfirst, body, hbody, hsplit⟩ := packAll_cons_ok.mp hall
            obtain ⟨rfl, rfl⟩ := List.append_inj hsplit
              ((length_packBracket hfirst).trans (length_clearPads hfront).symm)
            simp only [normalizeBrackets, bind_ok, pure_ok, List.cons.injEq] at hnormal
            obtain ⟨_, hbracket, _, hnormal, rfl, rfl⟩ := hnormal
            have htake : (whole ++ rest).take (size DEBUG_BRACKET_RECORD) =
                whole.take (size DEBUG_BRACKET_RECORD) := List.take_append_of_le_length (by omega)
            have hdrop : (whole ++ rest).drop (size DEBUG_BRACKET_RECORD) =
                whole.drop (size DEBUG_BRACKET_RECORD) ++ rest :=
              List.drop_append_of_le_length (by omega)
            rw [htake, hdrop, (packBracket_clear hfront).mp hfirst]
            refine ⟨(), ?_, _, hbracket, _, rest, ⟨Nat.succ_injective hcount, hnormal, _, ?_, hbody,
              rfl⟩, rfl, rfl⟩
            · rw [List.length_append]
              omega
            · rw [List.length_drop]
              omega

theorem clearBrackets_packAll {brackets : List DebugBracket} {bytes : Bytes}
    (h : packAll packBracket brackets = .ok bytes) :
    clearBrackets brackets.length bytes = bytes := by
  induction brackets generalizing bytes with
  | nil => rfl
  | cons bracket brackets ih =>
      obtain ⟨first, hfirst, rest, hrest, rfl⟩ := packAll_cons_ok.mp h
      have hlength := length_packBracket hfirst
      have hexact : ∀ record : Record DEBUG_BRACKET_RECORD, Exact DEBUG_BRACKET_RECORD record :=
        fun _ => trivial
      rw [List.length_cons, clearBrackets, List.take_left' hlength, List.drop_left' hlength,
        ih hrest, clearPads_of_pack (hexact _) (structPack_ok.mp hfirst)]

/-! ## Rows -/

/-- The header of a row holds two counts of 32 bits. -/
theorem read_rowHeader {header : Bytes} (h : header.length = size SPARSE_ROW_HEADER) :
    ∃ a b : Nat, a < 2 ^ 32 ∧ b < 2 ^ 32 ∧ read SPARSE_ROW_HEADER header = ((a : Int), (b : Int), ()) := by
  have hlength : header.length = 8 := h
  refine ⟨_, _, ?_, ?_, rfl⟩
  · refine (leValue_lt _).trans_le ?_
    rw [List.length_take, hlength]
    exact le_rfl
  · refine (leValue_lt _).trans_le ?_
    rw [List.length_take, List.length_drop, hlength]
    exact le_rfl

theorem rowCounts_append {header : Bytes} (h : header.length = size SPARSE_ROW_HEADER) {a b : Nat}
    (hread : read SPARSE_ROW_HEADER header = ((a : Int), (b : Int), ())) (rest : Bytes) :
    rowCounts (header ++ rest) = (a, b) := by
  rw [rowCounts, List.take_left' h, hread]
  rfl

/-- A row in its three parts. -/
theorem clearRow_append {header ranges brackets : Bytes} {a b : Nat}
    (h : header.length = size SPARSE_ROW_HEADER)
    (hread : read SPARSE_ROW_HEADER header = ((a : Int), (b : Int), ()))
    (hranges : ranges.length = a * size AMBIGUITY_RANGE_RECORD) :
    clearRow (header ++ (ranges ++ brackets)) = header ++ ranges ++ clearBrackets b brackets := by
  have hfront : (header ++ ranges).length = rowFront (header ++ (ranges ++ brackets)) := by
    rw [rowFront, rowCounts_append h hread, List.length_append, h, hranges]
  rw [clearRow, ← hfront, rowCounts_append h hread, ← List.append_assoc, List.take_left,
    List.drop_left]

theorem packRowHeader_ok {a b : Nat} {header : Bytes} (h : header.length = size SPARSE_ROW_HEADER) :
    structPack SPARSE_ROW_HEADER ((a : Int), (b : Int), ()) = .ok header ↔
      read SPARSE_ROW_HEADER header = ((a : Int), (b : Int), ()) := by
  have hexact : Exact SPARSE_ROW_HEADER ((a : Int), (b : Int), ()) := trivial
  rw [structPack_ok, pack_eq_some hexact]
  exact ⟨fun h => h.2.2, fun hread => ⟨h, trivial, hread⟩⟩

theorem length_packRange {range : AmbiguityRange} {bytes : Bytes}
    (h : packRange range = .ok bytes) : bytes.length = size AMBIGUITY_RANGE_RECORD :=
  (packRange_ok.mp h).1

/-- What a row is: counts, ranges, and the cleared form of the brackets. -/
theorem decodeRow_sound {span : Span} {debug : Bool} {bytes rest : Bytes}
    {ranges : List AmbiguityRange} {brackets : List DebugBracket}
    (h : decodeRow span debug bytes = .ok ((ranges, brackets), rest)) :
    (∃ row, bytes = row ++ rest ∧ rowLength bytes = row.length ∧
      sparseRow ranges brackets = .ok (clearRow row)) ∧ (debug = false → brackets = []) := by
  simp only [decodeRow, bind_ok, failIf_ok, not_lt, Prod.exists, pure_ok, Prod.mk.injEq] at h
  obtain ⟨_, hlength, _, hproduction, _, _, hranges, _, _, hbrackets, ⟨h1, h2⟩, h3⟩ := h
  rw [h1] at hranges hbrackets
  rw [h2, h3] at hbrackets
  have hheader : (bytes.take (size SPARSE_ROW_HEADER)).length = size SPARSE_ROW_HEADER := by
    rw [List.length_take]
    omega
  obtain ⟨a, b, ha, hb, hread⟩ := read_rowHeader hheader
  simp only [hread, Int.toNat_natCast] at hranges hbrackets hproduction
  obtain ⟨rfl, _, rangeBytes, hrangeBytes, hbytes⟩ := decodeRanges_ok.mp hranges
  obtain ⟨rfl, _, body, hbody, hbracketBytes, rfl⟩ := decodeBrackets_ok.mp hbrackets
  have hwidth := length_packAll (fun _ _ => length_packRange) hrangeBytes
  have hsplit : bytes = bytes.take (size SPARSE_ROW_HEADER) ++ (rangeBytes ++ body) ++ rest := by
    rw [List.append_assoc, List.append_assoc, ← hbytes, List.take_append_drop]
  refine ⟨⟨bytes.take (size SPARSE_ROW_HEADER) ++ (rangeBytes ++ body), hsplit, ?_, ?_⟩, ?_⟩
  · rw [rowLength, rowFront]
    conv_lhs => rw [hsplit, List.append_assoc]
    rw [rowCounts_append hheader hread, List.length_append, List.length_append, hwidth, hbody,
      hheader, Nat.add_assoc]
  · rw [clearRow_append hheader hread hwidth]
    simp only [sparseRow, bind_ok, failIf_ok, pure_ok]
    exact ⟨(), by omega, _, (packRowHeader_ok hheader).mpr hread, _, hrangeBytes, _, hbracketBytes,
      rfl⟩
  · intro hdebug
    have hzero : (brackets.length : Int) = 0 := by
      by_contra hne
      exact hproduction ⟨hdebug, hne⟩
    exact List.length_eq_zero_iff.mp (by exact_mod_cast hzero)

/-- **A written row is read back.** -/
theorem decodeRow_sparseRow {span : Span} {debug : Bool} {ranges : List AmbiguityRange}
    {brackets : List DebugBracket} {row : Bytes} (h : sparseRow ranges brackets = .ok row)
    {total : Int} (hranges : normalizeRanges span none ranges = .ok (ranges, total))
    (hbrackets : normalizeBrackets span ranges none brackets = .ok brackets)
    (hproduction : debug = false → brackets = []) (rest : Bytes) :
    decodeRow span debug (row ++ rest) = .ok ((ranges, brackets), rest) := by
  simp only [sparseRow, bind_ok, failIf_ok, pure_ok] at h
  obtain ⟨_, _, header, hheader, rangeBytes, hrangeBytes, bracketBytes, hbracketBytes, rfl⟩ := h
  have hlength : header.length = size SPARSE_ROW_HEADER := length_pack (structPack_ok.mp hheader)
  have hread := (packRowHeader_ok hlength).mp hheader
  rw [List.append_assoc, List.append_assoc]
  simp only [decodeRow, bind_ok, failIf_ok, not_lt, Prod.exists, pure_ok, Prod.mk.injEq]
  rw [List.take_left' hlength, List.drop_left' hlength, hread]
  refine ⟨(), ?_, (), ?_, _, _, decodeRanges_ok.mpr ⟨rfl, ⟨total, hranges⟩, rangeBytes,
    hrangeBytes, rfl⟩, _, _, decodeBrackets_ok.mpr ⟨rfl, hbrackets, bracketBytes, ?_, ?_, rfl⟩,
    ⟨rfl, rfl⟩, rfl⟩
  · rw [List.length_append]
    omega
  · intro hbad
    rw [hproduction hbad.1] at hbad
    exact hbad.2 rfl
  · exact length_packAll (fun _ _ => length_packBracket) hbracketBytes
  · rw [Int.toNat_natCast, clearBrackets_packAll hbracketBytes]
    exact hbracketBytes

end AttestedCompute.CompactV3
