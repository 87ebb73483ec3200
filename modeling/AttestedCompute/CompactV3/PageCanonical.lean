import AttestedCompute.CompactV3.SparseRows

/-!
# Pages are read as they are written

`decodePage` inverts `encodePayload` on normalized states, and what it decodes encodes to the payload
with its reserved bytes zeroed.
-/

namespace AttestedCompute.CompactV3

open Fallible PackedStruct BitWords

/-- A payload with the reserved bytes of its debug brackets zeroed. -/
def clearPayload (recordWidth characters sparseCharacters : Nat) (payload : Bytes) : Bytes :=
  payload.take (packedBytes characters recordWidth)
    ++ clearRows sparseCharacters (payload.drop (packedBytes characters recordWidth))

/-- The dense record of a state. -/
def denseOf (s : CharacterState) : DenseRecord where
  hasDeterminate := s.firstDeterminateNumerator.isSome
  firstSign := s.firstSign
  lastSign := s.lastSign
  hasSparse := s.hasSparse
  transition := s.internalSignChangeCount.toNat

theorem denseValue_eq (s : CharacterState) : denseValue s = (denseOf s).value := rfl

/-! ## What normality gives -/

section Normal

variable {span : Span} {debug : Bool} {identity : Identity} {s : CharacterState}

theorem Normal.ambiguityCount_eq (h : Normal span debug identity s) :
    s.ambiguityCount = rangeSamples s.ambiguityRanges := (normalizeRanges_ok h.ranges).2

theorem Normal.isSome_first (h : Normal span debug identity s) :
    s.firstDeterminateNumerator.isSome = decide (rangeSamples s.ambiguityRanges < span.samples) := by
  rw [h.first, derivedFirst]
  by_cases hdeterminate : rangeSamples s.ambiguityRanges < span.samples
  · rw [if_pos hdeterminate, decide_eq_true hdeterminate]
    rfl
  · rw [if_neg hdeterminate, decide_eq_false hdeterminate]
    rfl

theorem Normal.production (h : Normal span debug identity s) (hdebug : debug = false) :
    s.bracketRecords = [] := by
  have := (stateBrackets_ok h.brackets).1
  rwa [hdebug] at this

theorem Normal.normalizeBrackets (h : Normal span debug identity s) :
    normalizeBrackets span s.ambiguityRanges none s.bracketRecords = .ok s.bracketRecords := by
  cases debug with
  | false =>
      rw [h.production rfl]
      rfl
  | true =>
      have hbrackets := h.brackets
      simp only [stateBrackets, if_true, bind_ok, pure_ok] at hbrackets
      obtain ⟨_, hraw, _, _, _, _, _, _, rfl⟩ := hbrackets
      exact hraw

theorem Normal.consistent (h : Normal span debug identity s) : (denseOf s).Consistent := by
  have hsigns := (checkSigns_ok.mp h.signs).2.2
  have hcheck := h.parityOfSigns
  have hcount := h.count
  rw [h.ambiguityCount_eq] at hcount
  unfold DenseRecord.Consistent
  by_cases hdeterminate : rangeSamples s.ambiguityRanges < span.samples
  · rw [if_pos hdeterminate] at hsigns
    have hsome : (denseOf s).hasDeterminate = true := by
      rw [denseOf, h.isSome_first, decide_eq_true hdeterminate]
    rw [if_pos hsome]
    exact hsigns
  · rw [if_neg hdeterminate] at hsigns
    have hnone : (denseOf s).hasDeterminate = false := by
      rw [denseOf, h.isSome_first, decide_eq_false hdeterminate]
    rw [hnone, if_neg Bool.false_ne_true]
    simp only [checkTransition, failIf_ok, not_or, not_and, not_not] at hcheck
    have hzero := hcheck.2.2 (by omega)
    exact ⟨hsigns.1, hsigns.2.1, by rw [denseOf, hzero]; rfl⟩

theorem rawState_denseOf (h : Normal span debug identity s) :
    rawState span identity (denseOf s) s.ambiguityRanges s.bracketRecords = s := by
  refine CharacterState.ext h.conrey.1.symm h.ordinal.1.symm h.parity.symm h.samples.symm
    h.first.symm rfl h.last.symm rfl h.leading.symm h.trailing.symm h.ambiguityCount_eq.symm ?_ rfl rfl
  exact Int.toNat_of_nonneg h.transition.1

end Normal

/-! ## One state -/

theorem encodeState_ok {recordWidth : Nat} {s : CharacterState} {value : Nat} {row : Bytes} :
    encodeState recordWidth s = .ok (value, row) ↔
      (0 ≤ s.internalSignChangeCount ∧ denseValue s < 2 ^ recordWidth) ∧ rowOf s = .ok row ∧
        denseValue s = value := by
  simp only [encodeState, bind_ok, failIf_ok, not_or, not_lt, not_le, pure_ok, Prod.mk.injEq]
  constructor
  · intro h
    obtain ⟨_, hfits, _, hrow, hvalue, rfl⟩ := h
    exact ⟨hfits, hrow, hvalue⟩
  · intro h
    obtain ⟨hfits, hrow, hvalue⟩ := h
    exact ⟨(), hfits, row, hrow, hvalue, rfl⟩

theorem decodeSparse_rowOf {span : Span} {debug : Bool} {identity : Identity} {s : CharacterState}
    {row : Bytes} (hnormal : Normal span debug identity s) (h : rowOf s = .ok row) (rest : Bytes) :
    decodeSparse span debug s.hasSparse (row ++ rest) =
      .ok ((s.ambiguityRanges, s.bracketRecords), rest) := by
  unfold rowOf at h
  unfold decodeSparse
  by_cases hsome : s.hasSparse
  · rw [if_pos hsome] at h ⊢
    exact decodeRow_sparseRow h hnormal.ranges hnormal.normalizeBrackets hnormal.production rest
  · rw [if_neg hsome] at h ⊢
    cases h
    have hnone : s.ambiguityRanges = [] ∧ s.bracketRecords = [] := by
      simpa [CharacterState.hasSparse] using hsome
    rw [hnone.1, hnone.2]
    rfl

theorem decodeState_encodeState {span : Span} {debug : Bool} {identity : Identity}
    {s : CharacterState} {row : Bytes} (hnormal : Normal span debug identity s)
    (h : rowOf s = .ok row) (rest : Bytes) :
    decodeState span debug identity (denseOf s) (row ++ rest) = .ok (s, rest) := by
  unfold decodeState
  refine bind_ok.mpr ⟨_, decodeSparse_rowOf hnormal h rest, ?_⟩
  refine bind_ok.mpr ⟨(), failIf_ok.mpr (not_not.mpr ?_), ?_⟩
  · simp [denseOf, CharacterState.hasSparse]
  refine bind_ok.mpr ⟨(), failIf_ok.mpr (not_not.mpr hnormal.isSome_first), ?_⟩
  refine bind_ok.mpr ⟨s, ?_, rfl⟩
  rw [rawState_denseOf hnormal]
  exact hnormal.normalizeState

/-- A decoded row: cut off the front, and written again in its cleared form. -/
def RowRead (s : CharacterState) (hasSparse : Bool) (bytes rest : Bytes) : Prop :=
  if hasSparse then ∃ row, bytes = row ++ rest ∧ rowLength bytes = row.length ∧
    rowOf s = .ok (clearRow row)
  else bytes = rest ∧ rowOf s = .ok []

theorem decodeState_sound {span : Span} {debug : Bool} {identity : Identity} {d : DenseRecord}
    {s : CharacterState} {bytes rest : Bytes}
    (h : decodeState span debug identity d bytes = .ok (s, rest)) :
    Normal span debug identity s ∧ denseOf s = d ∧ RowRead s d.hasSparse bytes rest := by
  simp only [decodeState, bind_ok, Prod.exists, failIf_ok, not_not, pure_ok, Prod.mk.injEq] at h
  obtain ⟨ranges, brackets, rest', hrow, _, hsparse, _, hdeterminate, _, hnormalize, hs, hrest⟩ := h
  subst hs hrest
  have hproduction : debug = false → brackets = [] := by
    unfold decodeSparse at hrow
    split at hrow
    · exact (decodeRow_sound hrow).2
    · cases hrow
      exact fun _ => rfl
  have heq := eq_of_normalizeState hnormalize hproduction
  have hnormal := normal_of_normalizeState hnormalize
  rw [heq] at hnormal ⊢
  have hflag : (rawState span identity d ranges brackets).hasSparse = d.hasSparse := hsparse.symm
  have hsome : (derivedFirst span ranges).isSome = d.hasDeterminate :=
    hnormal.isSome_first.trans hdeterminate.symm
  refine ⟨hnormal, ?_, ?_⟩
  · obtain ⟨hasDeterminate, firstSign, lastSign, hasSparse, transition⟩ := d
    simp only [denseOf, hflag]
    rw [DenseRecord.mk.injEq]
    exact ⟨hsome, rfl, rfl, rfl, Int.toNat_natCast transition⟩
  · unfold RowRead rowOf
    rw [hflag]
    unfold decodeSparse at hrow
    by_cases hd : d.hasSparse
    · rw [if_pos hd] at hrow ⊢
      simp only [if_pos hd]
      exact (decodeRow_sound hrow).1
    · rw [if_neg hd] at hrow ⊢
      cases hrow
      simp only [if_neg hd]
      exact ⟨trivial, rfl⟩

/-! ## All states -/

theorem clearRows_of_rowRead {s : CharacterState} {hasSparse : Bool} {bytes rest : Bytes}
    (h : RowRead s hasSparse bytes rest) (count : Nat) :
    ∃ row, rowOf s = .ok row ∧
      clearRows (count + hasSparse.toNat) bytes = row ++ clearRows count rest := by
  unfold RowRead at h
  by_cases hsparse : hasSparse
  · rw [if_pos hsparse] at h
    obtain ⟨row, rfl, hlength, hrow⟩ := h
    refine ⟨clearRow row, hrow, ?_⟩
    rw [hsparse, Bool.toNat_true, clearRows, hlength, List.take_left, List.drop_left]
  · rw [if_neg hsparse] at h
    obtain ⟨rfl, hrow⟩ := h
    refine ⟨[], hrow, ?_⟩
    rw [Bool.eq_false_iff.mpr hsparse]
    rfl

/-- The states are normalized, each for its character. -/
def AllNormal (span : Span) (debug : Bool) (identities : List Identity)
    (states : List CharacterState) : Prop :=
  List.Forall₂ (Normal span debug) identities states

theorem decodeStates_sound {span : Span} {debug : Bool} {identities : List Identity}
    {records : List DenseRecord} {states : List CharacterState} {bytes rest : Bytes}
    {recordWidth : Nat} (hcount : identities.length = records.length)
    (hwidth : ∀ d ∈ records, d.value < 2 ^ recordWidth)
    (h : decodeStates span debug identities records bytes = .ok (states, rest)) :
    AllNormal span debug identities states ∧ states.map denseOf = records ∧
      ∃ encoded, states.mapM (encodeState recordWidth) = .ok encoded ∧
        encoded.map Prod.fst = records.map DenseRecord.value ∧
        clearRows (records.countP (·.hasSparse)) bytes = encoded.flatMap Prod.snd ++ rest := by
  induction records generalizing identities states bytes with
  | nil =>
      obtain rfl := List.length_eq_zero_iff.mp hcount
      cases h
      exact ⟨List.Forall₂.nil, rfl, [], rfl, rfl, rfl⟩
  | cons d records ih =>
      cases identities with
      | nil => cases hcount
      | cons identity identities =>
          simp only [decodeStates, bind_ok, Prod.exists, pure_ok, Prod.mk.injEq] at h
          obtain ⟨s, rest', hs, states', _, hstates, rfl, rfl⟩ := h
          obtain ⟨hnormal, hdense, hread⟩ := decodeState_sound hs
          obtain ⟨hall, hmap, encoded, hencoded, hvalues, hrows⟩ :=
            ih (Nat.succ_injective hcount) (fun d hd => hwidth d (List.mem_cons_of_mem _ hd)) hstates
          obtain ⟨row, hrow, hclear⟩ := clearRows_of_rowRead hread (records.countP (·.hasSparse))
          have hvalue : denseValue s = d.value := by rw [denseValue_eq, hdense]
          refine ⟨List.Forall₂.cons hnormal hall, by rw [List.map_cons, hdense, hmap],
            (d.value, row) :: encoded, ?_, ?_, ?_⟩
          · simp only [List.mapM_cons, bind_ok, pure_ok]
            refine ⟨_, encodeState_ok.mpr ⟨⟨hnormal.transition.1, ?_⟩, hrow, hvalue⟩, encoded,
              hencoded, rfl⟩
            rw [hvalue]
            exact hwidth d List.mem_cons_self
          · rw [List.map_cons, List.map_cons, hvalues]
          · have hcountP : (d :: records).countP (·.hasSparse) =
                records.countP (·.hasSparse) + d.hasSparse.toNat := by
              rw [List.countP_cons]
              cases d.hasSparse <;> rfl
            rw [hcountP, hclear, hrows, List.flatMap_cons, List.append_assoc]

theorem decodeStates_encode {span : Span} {debug : Bool} {identities : List Identity}
    {states : List CharacterState} {recordWidth : Nat} {encoded : List (Nat × Bytes)}
    (hnormal : AllNormal span debug identities states)
    (h : states.mapM (encodeState recordWidth) = .ok encoded) (rest : Bytes) :
    encoded.map Prod.fst = states.map denseValue ∧
      (∀ value ∈ states.map denseValue, value < 2 ^ recordWidth) ∧
      decodeStates span debug identities (states.map denseOf)
        (encoded.flatMap Prod.snd ++ rest) = .ok (states, rest) := by
  induction hnormal generalizing encoded with
  | nil =>
      cases h
      exact ⟨rfl, fun value hvalue => (by cases hvalue), rfl⟩
  | @cons identity s identities states hs _ ih =>
      simp only [List.mapM_cons, bind_ok, Prod.exists, pure_ok] at h
      obtain ⟨value, row, hone, encoded, hrest, rfl⟩ := h
      obtain ⟨⟨_, hfits⟩, hrow, rfl⟩ := encodeState_ok.mp hone
      obtain ⟨hvalues, hbound, hdecode⟩ := ih hrest
      refine ⟨by rw [List.map_cons, List.map_cons, hvalues], ?_, ?_⟩
      · intro value hvalue
        rcases List.mem_cons.mp hvalue with rfl | hvalue
        · exact hfits
        · exact hbound value hvalue
      · rw [List.map_cons, List.flatMap_cons, List.append_assoc]
        simp only [decodeStates, bind_ok, Prod.exists, pure_ok, Prod.mk.injEq]
        exact ⟨s, _, decodeState_encodeState hs hrow _, states, rest, hdecode, rfl, rfl⟩

/-! ## A page -/

theorem mapM_decodeDense {values : List Nat} {records : List DenseRecord} :
    values.mapM decodeDense = .ok records ↔
      (∀ d ∈ records, d.Consistent) ∧ records.map DenseRecord.value = values := by
  induction values generalizing records with
  | nil =>
      rw [List.mapM_nil, pure_ok]
      constructor
      · intro h
        rw [← h]
        exact ⟨fun d hd => (by cases hd), rfl⟩
      · intro h
        exact (List.map_eq_nil_iff.mp h.2).symm
  | cons value values ih =>
      simp only [List.mapM_cons, bind_ok, decodeDense_ok, ih, pure_ok]
      constructor
      · intro h
        obtain ⟨d, ⟨hconsistent, hvalue⟩, records, ⟨hall, hvalues⟩, rfl⟩ := h
        refine ⟨fun d' hd' => ?_, by rw [List.map_cons, hvalue, hvalues]⟩
        rcases List.mem_cons.mp hd' with rfl | hd'
        · exact hconsistent
        · exact hall d' hd'
      · intro h
        obtain ⟨hall, hvalues⟩ := h
        cases records with
        | nil => cases hvalues
        | cons d records =>
            rw [List.map_cons, List.cons.injEq] at hvalues
            exact ⟨d, ⟨hall d List.mem_cons_self, hvalues.1⟩, records,
              ⟨fun d' hd' => hall d' (List.mem_cons_of_mem d hd'), hvalues.2⟩, rfl⟩

theorem AllNormal.consistent {span : Span} {debug : Bool} {identities : List Identity}
    {states : List CharacterState} (h : AllNormal span debug identities states) :
    ∀ d ∈ states.map denseOf, d.Consistent := by
  induction h with
  | nil => exact fun d hd => (by cases hd)
  | cons hs _ ih =>
      intro d hd
      rcases List.mem_cons.mp hd with rfl | hd
      · exact hs.consistent
      · exact ih d hd

/-- **Reading a page that was written.** -/
theorem decodePage_encodePayload {span : Span} {debug : Bool} {countWidth : Nat}
    {identities : List Identity} {states : List CharacterState} {payload : Bytes}
    (hnormal : AllNormal span debug identities states)
    (h : encodePayload countWidth states = .ok payload) :
    decodePage span debug countWidth identities (states.countP (·.hasSparse)) payload =
      .ok (states, totalsOf states) := by
  simp only [encodePayload, bind_ok, pure_ok] at h
  obtain ⟨encoded, hencoded, _, _, rfl⟩ := h
  obtain ⟨hvalues, hbound, hdecode⟩ := decodeStates_encode hnormal hencoded []
  have hlength : identities.length = states.length := hnormal.length_eq
  have hwidth : 0 < 4 + countWidth := by omega
  have hpacked : (densePart (4 + countWidth) (encoded.map Prod.fst)).length =
      packedBytes identities.length (4 + countWidth) := by
    rw [length_densePart _ hwidth, hvalues, List.length_map, hlength]
  have hpadding : checkPadding (densePart (4 + countWidth) (encoded.map Prod.fst))
      (identities.length * (4 + countWidth)) = .ok () := by
    have := checkPadding_densePart hwidth (encoded.map Prod.fst)
    rwa [hvalues, List.length_map, ← hlength, ← hvalues] at this
  have hread := getBits_densePart hwidth hbound
  rw [List.length_map, ← hlength, ← hvalues] at hread
  have hrecords : (encoded.map Prod.fst).mapM decodeDense = .ok (states.map denseOf) := by
    refine mapM_decodeDense.mpr ⟨hnormal.consistent, ?_⟩
    rw [hvalues, List.map_map]
    rfl
  rw [List.append_nil] at hdecode
  unfold decodePage
  refine bind_ok.mpr ⟨(), failIf_ok.mpr ?_, ?_⟩
  · rw [List.length_append, hpacked]
    omega
  simp only [List.take_left' hpacked, List.drop_left' hpacked, hread]
  refine bind_ok.mpr ⟨(), hpadding, ?_⟩
  refine bind_ok.mpr ⟨_, hrecords, ?_⟩
  refine bind_ok.mpr ⟨(), failIf_ok.mpr (not_not.mpr ?_), ?_⟩
  · rw [List.countP_map]
    rfl
  refine bind_ok.mpr ⟨_, hdecode, ?_⟩
  exact bind_ok.mpr ⟨(), failIf_ok.mpr (not_not.mpr rfl), rfl⟩

/-- **Writing a page that was read.** The reserved bytes come out as zeros. -/
theorem encodePayload_decodePage {span : Span} {debug : Bool} {countWidth sparse : Nat}
    {identities : List Identity} {states : List CharacterState} {payload : Bytes}
    {totals : PageTotals}
    (h : decodePage span debug countWidth identities sparse payload = .ok (states, totals)) :
    AllNormal span debug identities states ∧ sparse = states.countP (·.hasSparse) ∧
      totals = totalsOf states ∧
      encodePayload countWidth states =
        .ok (clearPayload (4 + countWidth) identities.length sparse payload) := by
  simp only [decodePage, bind_ok, failIf_ok, not_lt, not_not, Prod.exists, pure_ok,
    Prod.mk.injEq] at h
  obtain ⟨_, hlength, _, hpadding, records, hrecords, _, rfl, states', rest, hstates, _, rfl, rfl,
    rfl⟩ := h
  have hwidth : 0 < 4 + countWidth := by omega
  have hpacked : (payload.take (packedBytes identities.length (4 + countWidth))).length =
      packedBytes identities.length (4 + countWidth) := by
    rw [List.length_take]
    omega
  obtain ⟨_, hvalues⟩ := mapM_decodeDense.mp hrecords
  have hcount : identities.length = records.length := by
    have := congrArg List.length hvalues
    simpa using this.symm
  have hbound : ∀ d ∈ records, d.value < 2 ^ (4 + countWidth) := by
    intro d hd
    have hmem : d.value ∈ records.map DenseRecord.value := List.mem_map_of_mem hd
    rw [hvalues] at hmem
    obtain ⟨k, _, hk⟩ := List.mem_map.mp hmem
    rw [← hk]
    exact getBits_lt _ _ _
  obtain ⟨hnormal, hdense, encoded, hencoded, hfst, hrows⟩ :=
    decodeStates_sound hcount hbound hstates
  refine ⟨hnormal, ?_, rfl, ?_⟩
  · rw [← hdense, List.countP_map]
    rfl
  · have hpart : densePart (4 + countWidth) (encoded.map Prod.fst) =
        payload.take (packedBytes identities.length (4 + countWidth)) := by
      rw [hfst, hvalues]
      exact densePart_getBits hwidth hpacked hpadding
    simp only [encodePayload, bind_ok, pure_ok]
    refine ⟨encoded, hencoded, (), ?_, ?_⟩
    · rw [hpart, ← hnormal.length_eq]
      exact hpadding
    · rw [hpart, clearPayload, hrows, List.append_nil]

end AttestedCompute.CompactV3
