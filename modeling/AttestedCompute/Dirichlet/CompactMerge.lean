import AttestedCompute.Dirichlet.CompactValidity
import AttestedCompute.Dirichlet.Grouping
import AttestedCompute.Lib.RollingHash

/-!
# Merging compact states

What `combine_compact_state_summaries` returns is the join of the two states, sealed with
the hash of its body. The join of three states does not depend on the grouping, and its leaf
commitment is the polynomial of the leaves in order. Whether the validator lets the join
through can depend on the grouping (`combine_assoc_iff`).
-/

namespace AttestedCompute.Dirichlet

open Fallible CharacterRecord

/-! ## The leaf commitment -/

theorem hexDigitOf_hexDigit : ∀ d < 16, hexDigitOf (Text.ofChar (Bytes.hexDigit d)) = some d := by
  decide

theorem hexDigitOf_hex64 (n : Nat) : ∀ c ∈ hex64 n, (hexDigitOf c).isSome = true := by
  intro c hc
  obtain ⟨d, hd, rfl⟩ := List.mem_map.mp hc
  rw [hexDigitOf_hexDigit d (Positional.isNumeral_digits (by decide) 64 n d hd)]
  rfl

theorem length_hex64 (n : Nat) : (hex64 n).length = 64 := by
  rw [hex64, List.length_map, Positional.length_digits]

theorem ROLLING_MODULUS_lt : ROLLING_MODULUS < 16 ^ 64 := by
  rw [ROLLING_MODULUS]
  decide

/-- Reading back what `:064x` printed. -/
theorem hexValue_hex64 {n : Nat} (h : n < ROLLING_MODULUS) : hexValue (hex64 n) = n := by
  have hread : ∀ d ∈ Positional.digits 16 64 n,
      (hexDigitOf (Text.ofChar (Bytes.hexDigit d))).getD 0 = d := by
    intro d hd
    rw [hexDigitOf_hexDigit d (Positional.isNumeral_digits (by decide) 64 n d hd)]
    rfl
  rw [hexValue, hex64, List.map_map]
  have hdigits := (List.map_congr_left hread).trans (List.map_id _)
  refine (congrArg (Positional.value 16) hdigits).trans ?_
  exact Positional.value_digits_of_lt (h.trans ROLLING_MODULUS_lt)

theorem ROLLING_MODULUS_pos : 0 < ROLLING_MODULUS := by
  rw [ROLLING_MODULUS]
  decide

/-- The commitment to a sequence followed by another one. -/
def joinCommitments (left : Nat) (rightCount : Int) (right : Nat) : Nat :=
  RollingHash.join ROLLING_BASE ROLLING_MODULUS left rightCount.toNat right

theorem joinCommitments_lt (left : Nat) (rightCount : Int) (right : Nat) :
    joinCommitments left rightCount right < ROLLING_MODULUS :=
  RollingHash.join_lt ROLLING_MODULUS_pos left rightCount.toNat right

theorem combineAssociative_ok {m n : Int} {a b : Nat} {result : Int × Nat} :
    combineAssociativeEventCommitments m a n b = .ok result
      ↔ 0 ≤ m ∧ 0 ≤ n ∧ m + n ≤ MAX_EVENT_COUNT ∧ a < ROLLING_MODULUS ∧ b < ROLLING_MODULUS
        ∧ result = (m + n, joinCommitments a n b) := by
  simp only [combineAssociativeEventCommitments, bind_ok, pure_ok, failIf_ok, exists_const,
    not_lt, Bool.not_eq_false, isUint64_iff, gt_iff_lt]
  rw [not_le, not_le]
  constructor
  · intro hall
    obtain ⟨⟨hm, _⟩, ⟨hn, _⟩, ha, hb, hsum, heq⟩ := hall
    exact ⟨hm, hn, hsum, ha, hb, heq.symm⟩
  · intro hall
    obtain ⟨hm, hn, hsum, ha, hb, heq⟩ := hall
    exact ⟨⟨hm, by omega⟩, ⟨hn, by omega⟩, ha, hb, hsum, heq.symm⟩

/-! ## The join of two states -/

/-- The merged records of two states. -/
def mergedStates (left right : List CharacterRecord) : List CharacterRecord :=
  List.zipWith merge left right

/-- The sign changes that the merge adds. -/
def insertedCrossings (left right : List CharacterRecord) : Int :=
  bracketTotal (mergedStates left right) - bracketTotal left - bracketTotal right

namespace CompactState

/-- The state of both shards, not yet sealed. -/
def join (left right : CompactState) : CompactState where
  schema := COMPACT_STATE_SCHEMA
  schemaVersion := 2
  classification := COMPACT_STATE_CLASSIFICATION
  context := joinContexts left.context right.context
  characterStates := mergedStates left.characterStates right.characterStates
  leafEventSummaryCount := left.leafEventSummaryCount + right.leafEventSummaryCount
  leafEventSummaryCommitment := compactStateCommitment
    (left.leafEventSummaryCount + right.leafEventSummaryCount)
    (joinCommitments (hexValue left.leafEventSummaryCommitment.valueHex)
      right.leafEventSummaryCount (hexValue right.leafEventSummaryCommitment.valueHex))
  internalSignChangeCount := left.internalSignChangeCount + right.internalSignChangeCount
  crossBoundarySignChangeCount :=
    left.crossBoundarySignChangeCount + right.crossBoundarySignChangeCount
      + insertedCrossings left.characterStates right.characterStates
  signChangeLowerBound := left.internalSignChangeCount + right.internalSignChangeCount
    + (left.crossBoundarySignChangeCount + right.crossBoundarySignChangeCount
      + insertedCrossings left.characterStates right.characterStates)
  ambiguitySampleCount := left.ambiguitySampleCount + right.ambiguitySampleCount
  exactAmbiguityRangesRetained := true
  orderedBracketRecordsRetained := true
  refinementArtifactsComplete := false
  turingCompleteness := false
  sourceScaleStateEncoding := false
  externalAtomDischarged := false
  stateSha256 := []

/-- Where a merged character has brackets, both its records are coherent. -/
def Agree (left right : List CharacterRecord) : Prop :=
  ∀ (i : Nat) x y, left[i]? = some x → right[i]? = some y →
    (merge x y).bracketRecords ≠ [] → Coherent x ∧ Coherent y

/-- The totals of a state are machine words. -/
structure InRange (value : CompactState) : Prop where
  leaves : value.leafEventSummaryCount ≤ MAX_EVENT_COUNT
  brackets : value.signChangeLowerBound ≤ MAX_EVENT_COUNT
  ambiguities : value.ambiguitySampleCount ≤ MAX_EVENT_COUNT

end CompactState

variable {roster : Roster} {a b c r : CompactState} {ids : List RosterIdentity}

open CompactState

/-! ## Merging the characters -/

theorem totals_merged {xs ys : List CharacterRecord} (hlength : xs.length = ys.length) :
    ambiguityTotal (mergedStates xs ys) = ambiguityTotal xs + ambiguityTotal ys := by
  induction xs generalizing ys with
  | nil =>
      cases ys with
      | nil => rfl
      | cons y ys => cases hlength
  | cons x xs ih =>
      cases ys with
      | nil => cases hlength
      | cons y ys =>
          have hrest := ih (Nat.succ.inj hlength)
          rw [mergedStates, List.zipWith_cons_cons, (totals_cons _ _).2, (totals_cons x xs).2,
            (totals_cons y ys).2, ← mergedStates, hrest]
          show x.ambiguityCount + y.ambiguityCount + _ = _
          omega

theorem inserted_bounds {xs ys : List CharacterRecord} (hlength : xs.length = ys.length) :
    0 ≤ insertedCrossings xs ys := by
  induction xs generalizing ys with
  | nil =>
      cases ys with
      | nil => exact le_refl 0
      | cons y ys => cases hlength
  | cons x xs ih =>
      cases ys with
      | nil => cases hlength
      | cons y ys =>
          have hrest := ih (Nat.succ.inj hlength)
          have hone : (0 : Int) ≤ if crosses x y = true then 1 else 0 := by split <;> decide
          rw [insertedCrossings] at hrest ⊢
          rw [mergedStates, List.zipWith_cons_cons, (totals_cons _ _).1, (totals_cons x xs).1,
            (totals_cons y ys).1, ← mergedStates, merge_bracketCount]
          omega

/-- **The loop over both rosters.** -/
theorem combineCharacters_ok {xs ys : List CharacterRecord} (hlength : xs.length = ys.length)
    {result : List CharacterRecord × Int} :
    combineCharacters (xs.zip ys) = .ok result
      ↔ (∀ (i : Nat) x y, xs[i]? = some x → ys[i]? = some y → combine x y = .ok (merge x y))
        ∧ result = (mergedStates xs ys, insertedCrossings xs ys) := by
  induction xs generalizing ys result with
  | nil =>
      cases ys with
      | nil =>
          rw [List.zip_nil_left, combineCharacters, pure_ok]
          simp [mergedStates, insertedCrossings, bracketTotal, eq_comm]
      | cons y ys => cases hlength
  | cons x xs ih =>
      cases ys with
      | nil => cases hlength
      | cons y ys =>
          have hrest := @ih ys
          have hinserted : insertedCrossings (x :: xs) (y :: ys)
              = (merge x y).bracketCount - x.bracketCount - y.bracketCount
                + insertedCrossings xs ys := by
            rw [insertedCrossings, mergedStates, List.zipWith_cons_cons, (totals_cons _ _).1,
              (totals_cons x xs).1, (totals_cons y ys).1, ← mergedStates, insertedCrossings]
            omega
          have hone : (merge x y).bracketCount - x.bracketCount - y.bracketCount = 0
              ∨ (merge x y).bracketCount - x.bracketCount - y.bracketCount = 1 := by
            rw [merge_bracketCount]
            split <;> omega
          simp only [List.zip_cons_cons, combineCharacters, bind_ok, pure_ok, failIf_ok, not_not,
            exists_const]
          constructor
          · intro hall
            obtain ⟨merged, hmerged, _, ⟨states, crossings⟩, hstates, hresult⟩ := hall
            have hmerge := (combine_ok_iff.mp hmerged).2.2.2
            obtain ⟨hall, heq⟩ := (hrest (Nat.succ.inj hlength)).mp hstates
            cases heq
            subst hmerge
            refine ⟨fun i x' y' hx hy => ?_, ?_⟩
            · cases i with
              | zero =>
                  rw [List.getElem?_cons_zero, Option.some.injEq] at hx hy
                  rw [← hx, ← hy]
                  exact hmerged
              | succ i => exact hall i x' y' hx hy
            · rw [← hresult, hinserted]
              rfl
          · intro hall
            obtain ⟨hall, hresult⟩ := hall
            refine ⟨merge x y, hall 0 x y rfl rfl, hone, (mergedStates xs ys, insertedCrossings xs ys),
              (hrest (Nat.succ.inj hlength)).mpr ⟨fun i => hall (i + 1), rfl⟩, ?_⟩
            rw [hresult, hinserted]
            rfl

/-! ## Adjacent states -/

/-- The contexts are those of shards in a row. -/
structure Adjacent (left right : CompactContext) : Prop where
  q : left.q = right.q
  count : left.primitiveCharacterCount = right.primitiveCharacterCount
  denominator : left.tDenominator = right.tDenominator
  step : left.tStepNumerator = right.tStepNumerator
  cut : left.stopTNumerator = right.firstTNumerator

theorem adjacentContexts_iff {left right : CompactContext} :
    adjacentContexts left right = true ↔ Adjacent left right := by
  simp only [adjacentContexts, Bool.and_eq_true, decide_eq_true_eq]
  constructor
  · intro hall
    obtain ⟨⟨⟨⟨hq, hcount⟩, hdenominator⟩, hstep⟩, hcut⟩ := hall
    exact ⟨hq, hcount, hdenominator, hstep, hcut⟩
  · intro h
    exact ⟨⟨⟨⟨h.q, h.count⟩, h.denominator⟩, h.step⟩, h.cut⟩

section

variable {ca cb cc : CompactContext} {ordinal : Int} {identity : RosterIdentity}
  {x y : CharacterRecord}

theorem Adjacent.onGrid (h : Adjacent ca cb) (ha : ca.OnGrid) (hb : cb.OnGrid) :
    (joinContexts ca cb).OnGrid := by
  have hframes := ha.frames
  have hframes' := hb.frames
  have hstop := ha.stop
  have hstop' := hb.stop
  have hwhole := ha.whole
  have hwhole' := hb.whole
  have hcut := h.cut
  simp only [SOURCE_SAMPLE_NUMERATOR] at hwhole hwhole'
  refine ⟨ha.q, ha.count, ?_, ha.first, ?_, ha.denominator, ha.step, ?_⟩ <;>
    simp only [joinContexts, SOURCE_SAMPLE_NUMERATOR] <;> omega

theorem Adjacent.samples (h : Adjacent ca cb) (ha : ca.OnGrid) (hb : cb.OnGrid) :
    (joinContexts ca cb).samples = ca.samples + cb.samples := by
  have hwhole := ha.whole
  have hwhole' := hb.whole
  have hcut := h.cut
  simp only [joinContexts, CompactContext.samples, SOURCE_SAMPLE_NUMERATOR] at hwhole hwhole' ⊢
  omega

/-- The records of one character are in a row. -/
theorem CharacterFits.inRow (hx : CharacterFits ca ordinal x identity)
    (hy : CharacterFits cb ordinal y identity) (h : Adjacent ca cb) (ha : ca.OnGrid) :
    ∃ m n, InRow x y ca.firstTNumerator m n
      ∧ (m.length : Int) = ca.samples ∧ (n.length : Int) = cb.samples := by
  obtain ⟨m, hvalid, hlength⟩ := hx.valid
  obtain ⟨n, hvalid', hlength'⟩ := hy.valid
  rw [← h.cut, ← ha.after_samples hlength] at hvalid'
  exact ⟨m, n, ⟨hvalid, hvalid'⟩, hlength, hlength'⟩

theorem CharacterFits.combine_ok (hx : CharacterFits ca ordinal x identity)
    (hy : CharacterFits cb ordinal y identity) (h : Adjacent ca cb) (ha : ca.OnGrid) :
    x.combine y = .ok (merge x y)
      ↔ ((merge x y).bracketRecords ≠ [] → Coherent x ∧ Coherent y) := by
  obtain ⟨m, n, hrow, _⟩ := hx.inRow hy h ha
  have hsame : SameCharacter x y := ⟨hx.conrey.trans hy.conrey.symm, hx.index.trans hy.index.symm,
    hx.parity.trans hy.parity.symm⟩
  rw [combine_ok_iff]
  constructor
  · intro hall
    obtain ⟨_, _, hagree, _⟩ := hall
    exact hagree
  · intro hagree
    exact ⟨hsame, ⟨_, m, n, hrow⟩, hagree, rfl⟩

theorem CharacterFits.merge (hx : CharacterFits ca ordinal x identity)
    (hy : CharacterFits cb ordinal y identity) (h : Adjacent ca cb) (ha : ca.OnGrid)
    (hb : cb.OnGrid)
    (hagree : (x.merge y).bracketRecords ≠ [] → Coherent x ∧ Coherent y) :
    CharacterFits (joinContexts ca cb) ordinal (x.merge y) identity := by
  obtain ⟨m, n, hrow, hlength, hlength'⟩ := hx.inRow hy h ha
  refine ⟨hx.index, hx.rosterIndex, hx.conrey, hx.parity, m ++ n, hrow.left.merge hrow.right hagree,
    ?_⟩
  rw [h.samples ha hb, List.length_append, Nat.cast_add, hlength, hlength']

end

/-! ## Sealing -/

theorem body_seal (s : CompactState) (hash : Text) :
    body { s with stateSha256 := hash } = s.body := rfl

/-- The hash does not cover itself. -/
theorem bodySha256_seal (s : CompactState) (hash : Text) :
    bodySha256 { s with stateSha256 := hash } = s.bodySha256 := by
  unfold bodySha256
  rw [body_seal]

theorem sealState_ok {s : CompactState} : s.sealState = .ok r
    ↔ ∃ hash, s.bodySha256 = .ok hash ∧ r = { s with stateSha256 := hash } := by
  simp only [sealState, bind_ok, pure_ok]
  constructor
  · intro hall
    obtain ⟨hash, hhash, heq⟩ := hall
    exact ⟨hash, hhash, heq.symm⟩
  · intro hall
    obtain ⟨hash, hhash, heq⟩ := hall
    exact ⟨hash, hhash, heq.symm⟩

theorem bodySha256_isOk {s : CompactState} :
    (∃ hash, s.bodySha256 = .ok hash) ↔ Json.fits s.body = true := by
  rw [← Json.asciiBytes_isOk]
  unfold bodySha256
  constructor
  · intro hall
    obtain ⟨hash, hhash⟩ := hall
    cases hbytes : Json.asciiBytes s.body with
    | ok bytes => exact ⟨bytes, rfl⟩
    | error fault =>
        rw [hbytes] at hhash
        cases hhash
  · intro hall
    obtain ⟨bytes, hbytes⟩ := hall
    exact ⟨_, by rw [hbytes]⟩

theorem sealState_isOk {s : CompactState} :
    (∃ r, s.sealState = .ok r) ↔ Json.fits s.body = true := by
  simp only [sealState_ok, ← bodySha256_isOk]
  constructor
  · intro hall
    obtain ⟨_, hash, hhash, _⟩ := hall
    exact ⟨hash, hhash⟩
  · intro hall
    obtain ⟨hash, hhash⟩ := hall
    exact ⟨_, hash, hhash, rfl⟩

/-! ## Combining two states -/

theorem CompactState.Accepted.length_eq (ha : a.Accepted roster ids) (hb : b.Accepted roster ids) :
    a.characterStates.length = b.characterStates.length := by
  have hstates := ha.stateCount
  have hstates' := hb.stateCount
  have hids := ha.identityCount
  have hids' := hb.identityCount
  omega

/-- The identity of a record of an accepted state. -/
theorem CompactState.Accepted.identity (ha : a.Accepted roster ids) {i : Nat} {x : CharacterRecord}
    (hx : a.characterStates[i]? = some x) :
    ∃ identity, ids[i]? = some identity ∧ CharacterFits a.context i x identity := by
  have hstates := ha.stateCount
  have hids := ha.identityCount
  obtain ⟨hi, _⟩ := List.getElem?_eq_some_iff.mp hx
  have hi' : i < ids.length := by omega
  exact ⟨ids.get ⟨i, hi'⟩, List.getElem?_eq_getElem hi',
    ha.characters i x _ hx (List.getElem?_eq_getElem hi')⟩

/-- The states of adjacent shards name the same roster. -/
theorem CompactState.Accepted.sameRoster {ids' : List RosterIdentity} (ha : a.Accepted roster ids)
    (hb : b.Accepted roster ids') (h : Adjacent a.context b.context) : ids' = ids := by
  have hroster := hb.roster
  rw [← h.q, ha.roster] at hroster
  exact (Except.ok.inj hroster).symm

theorem getElem?_mergedStates {xs ys : List CharacterRecord} {i : Nat} {z : CharacterRecord}
    (h : (mergedStates xs ys)[i]? = some z) :
    ∃ x y, xs[i]? = some x ∧ ys[i]? = some y ∧ z = merge x y := by
  rw [mergedStates, List.getElem?_zipWith_eq_some] at h
  obtain ⟨x, y, hx, hy, hz⟩ := h
  exact ⟨x, y, hx, hy, hz.symm⟩

/-- What the sealed join says about itself. -/
theorem labelled_join (a b : CompactState) (hash : Text) :
    Labelled { a.join b with stateSha256 := hash } :=
  ⟨rfl, rfl, rfl, rfl, rfl, rfl, rfl, rfl, rfl⟩

theorem commitment_join (a b : CompactState) :
    (a.join b).leafEventSummaryCommitment = compactStateCommitment
      (a.leafEventSummaryCount + b.leafEventSummaryCount)
      (joinCommitments (hexValue a.leafEventSummaryCommitment.valueHex)
        b.leafEventSummaryCount (hexValue b.leafEventSummaryCommitment.valueHex)) := rfl

theorem committed_of_eq {s : CompactState} {count : Int} {value : Nat}
    (hcount : s.leafEventSummaryCount = count)
    (hcommitment : s.leafEventSummaryCommitment = compactStateCommitment count value)
    (hpos : 1 ≤ count) (hle : count ≤ MAX_EVENT_COUNT) (hlt : value < ROLLING_MODULUS) :
    s.Committed := by
  unfold compactStateCommitment at hcommitment
  refine ⟨hcount ▸ hpos, hcount ▸ hle, ?_, ?_, ?_, ?_, ?_, ?_, ?_⟩ <;>
    simp only [hcommitment]
  · exact hcount.symm
  · exact length_hex64 value
  · exact hexDigitOf_hex64 value
  · rwa [hexValue_hex64 hlt]

theorem CompactState.Totalled.join (ta : a.Totalled) (tb : b.Totalled)
    (hlength : a.characterStates.length = b.characterStates.length)
    (hrange : (a.join b).InRange) : (a.join b).Totalled := by
  have hinserted := inserted_bounds hlength
  have hcross := ta.cross
  have hcross' := tb.cross
  have hsum := ta.sum
  have hsum' := tb.sum
  have hbrackets := ta.brackets
  have hbrackets' := tb.brackets
  have hinternal := ta.internal
  have hinternal' := tb.internal
  refine ⟨?_, ?_, rfl, ?_, hrange.brackets, ?_, hrange.ambiguities⟩
  · show 0 ≤ a.internalSignChangeCount + b.internalSignChangeCount
    omega
  · show 0 ≤ a.crossBoundarySignChangeCount + b.crossBoundarySignChangeCount + _
    omega
  · show bracketTotal (mergedStates a.characterStates b.characterStates)
      = a.internalSignChangeCount + b.internalSignChangeCount
        + (a.crossBoundarySignChangeCount + b.crossBoundarySignChangeCount + _)
    rw [insertedCrossings]
    omega
  · show ambiguityTotal (mergedStates a.characterStates b.characterStates)
      = a.ambiguitySampleCount + b.ambiguitySampleCount
    rw [totals_merged hlength, ta.ambiguities, tb.ambiguities]

/-- **The join of accepted states is accepted**, once it is sealed. -/
theorem CompactState.Accepted.join (ha : a.Accepted roster ids) (hb : b.Accepted roster ids)
    (h : Adjacent a.context b.context) (hagree : Agree a.characterStates b.characterStates)
    (hrange : (a.join b).InRange) (hseal : (a.join b).sealState = .ok r) :
    r.Accepted roster ids := by
  obtain ⟨hash, hhash, rfl⟩ := sealState_ok.mp hseal
  have hlength := ha.length_eq hb
  have htotals := ha.totals.join hb.totals hlength hrange
  have hleaves := ha.committed.leaves
  have hleaves' := hb.committed.leaves
  exact
    { labelled := labelled_join a b hash
      hash := (bodySha256_seal _ hash).trans hhash
      context := h.onGrid ha.context hb.context
      roster := ha.roster
      stateCount := by
        show ((mergedStates a.characterStates b.characterStates).length : Int) = _
        rw [mergedStates, List.length_zipWith, ← hlength, min_self]
        exact ha.stateCount
      identityCount := ha.identityCount
      characters := by
        intro i z identity hz hidentity
        obtain ⟨x, y, hx, hy, rfl⟩ := getElem?_mergedStates hz
        exact (ha.characters i x identity hx hidentity).merge
          (hb.characters i y identity hy hidentity) h ha.context hb.context (hagree i x y hx hy)
      totals := ⟨htotals.internal, htotals.cross, htotals.sum, htotals.brackets,
        htotals.brackets_le, htotals.ambiguities, htotals.ambiguities_le⟩
      committed := committed_of_eq rfl (commitment_join a b)
        (show 1 ≤ a.leafEventSummaryCount + b.leafEventSummaryCount by omega) hrange.leaves
        (joinCommitments_lt _ _ _) }

theorem compactStateBody_ok {context : CompactContext} {states : List CharacterRecord}
    {leafCount : Int} {commitment : Nat} {internal cross ambiguities : Int} {s : CompactState} :
    compactStateBody context states leafCount commitment internal cross ambiguities = .ok s
      ↔ ((0 ≤ leafCount ∧ leafCount ≤ MAX_EVENT_COUNT) ∧ (0 ≤ internal ∧ internal ≤ MAX_EVENT_COUNT)
          ∧ (0 ≤ cross ∧ cross ≤ MAX_EVENT_COUNT)
          ∧ (0 ≤ internal + cross ∧ internal + cross ≤ MAX_EVENT_COUNT)
          ∧ (0 ≤ ambiguities ∧ ambiguities ≤ MAX_EVENT_COUNT) ∧ leafCount ≠ 0)
        ∧ s =
          { schema := COMPACT_STATE_SCHEMA
            schemaVersion := 2
            classification := COMPACT_STATE_CLASSIFICATION
            context := context
            characterStates := states
            leafEventSummaryCount := leafCount
            leafEventSummaryCommitment := compactStateCommitment leafCount commitment
            internalSignChangeCount := internal
            crossBoundarySignChangeCount := cross
            signChangeLowerBound := internal + cross
            ambiguitySampleCount := ambiguities
            exactAmbiguityRangesRetained := true
            orderedBracketRecordsRetained := true
            refinementArtifactsComplete := false
            turingCompleteness := false
            sourceScaleStateEncoding := false
            externalAtomDischarged := false
            stateSha256 := [] } := by
  simp only [compactStateBody, bind_ok, pure_ok, failIf_ok, exists_const, Bool.not_eq_false,
    isUint64_iff]
  constructor
  · intro hall
    obtain ⟨hleaves, hinternal, hcross, hsum, hambiguities, hpos, heq⟩ := hall
    exact ⟨⟨hleaves, hinternal, hcross, hsum, hambiguities, hpos⟩, heq.symm⟩
  · intro hall
    obtain ⟨⟨hleaves, hinternal, hcross, hsum, hambiguities, hpos⟩, heq⟩ := hall
    exact ⟨hleaves, hinternal, hcross, hsum, hambiguities, hpos, heq.symm⟩

theorem CompactState.Accepted.validate (ha : a.Accepted roster ids) :
    a.validate roster = .ok a.summary := validate_ok_iff.mpr ⟨⟨ids, ha⟩, rfl⟩

/-- The loop over the records of accepted states. -/
theorem combineCharacters_accepted (ha : a.Accepted roster ids) (hb : b.Accepted roster ids)
    (h : Adjacent a.context b.context) {result : List CharacterRecord × Int} :
    combineCharacters (a.characterStates.zip b.characterStates) = .ok result
      ↔ Agree a.characterStates b.characterStates
        ∧ result = (mergedStates a.characterStates b.characterStates,
          insertedCrossings a.characterStates b.characterStates) := by
  rw [combineCharacters_ok (ha.length_eq hb)]
  refine and_congr_left fun _ => forall_congr' fun i => forall_congr' fun x =>
    forall_congr' fun y => ?_
  refine forall_congr' fun hx => forall_congr' fun hy => ?_
  obtain ⟨identity, hidentity, hfits⟩ := ha.identity hx
  exact hfits.combine_ok (hb.characters i y identity hy hidentity) h ha.context

/-- **What combining accepted states in a row returns.** -/
theorem combine_states_ok (ha : a.Accepted roster ids) (hb : b.Accepted roster ids)
    (h : Adjacent a.context b.context) : a.combine roster b = .ok r
      ↔ Agree a.characterStates b.characterStates ∧ (a.join b).InRange
        ∧ (a.join b).sealState = .ok r := by
  have hlength := ha.length_eq hb
  have hinserted := inserted_bounds hlength
  have ta := ha.totals
  have tb := hb.totals
  have hsum := ta.sum
  have hsum' := tb.sum
  have hinternal := ta.internal
  have hinternal' := tb.internal
  have hcross := ta.cross
  have hcross' := tb.cross
  have hleaves := ha.committed.leaves
  have hleaves' := hb.committed.leaves
  have hadjacent := adjacentContexts_iff.mpr h
  simp only [CompactState.combine, bind_ok, pure_ok, failIf_ok, exists_const, ha.validate, hb.validate,
    Except.ok.injEq, exists_eq_left', combineCharacters_accepted ha hb h, combineAssociative_ok,
    compactStateBody_ok, hadjacent, not_or, gt_iff_lt, not_lt, summary]
  constructor
  · intro hall
    obtain ⟨_, _, ⟨hagree, heq⟩, _, ⟨_, _, hle, _, _, heq'⟩, ⟨_, _, hambiguities, hbrackets⟩, _,
      ⟨_, hbody⟩, _, hseal, _, _, _, hr⟩ := hall
    subst heq heq' hbody hr
    refine ⟨hagree, ⟨hle, ?_, hambiguities⟩, hseal⟩
    show a.internalSignChangeCount + b.internalSignChangeCount + (_ + _ + _) ≤ _
    omega
  · intro hall
    obtain ⟨hagree, hrange, hseal⟩ := hall
    have hvalid := ha.join hb h hagree hrange hseal
    have ht := ha.totals.join hb.totals hlength hrange
    have hbrackets : a.signChangeLowerBound + b.signChangeLowerBound
        + insertedCrossings a.characterStates b.characterStates
        = (a.join b).signChangeLowerBound := by
      show _ = a.internalSignChangeCount + b.internalSignChangeCount + (_ + _ + _)
      omega
    have hambiguities := ha.ambiguities_nonneg
    have hambiguities' := hb.ambiguities_nonneg
    have hle := hrange.brackets
    have hsealed := hseal
    obtain ⟨hash, _, rfl⟩ := sealState_ok.mp hsealed
    refine ⟨by simp, _, ⟨hagree, rfl⟩, _, ⟨by omega, by omega, hrange.leaves, ha.committed.lt, hb.committed.lt, rfl⟩,
      ⟨?_, ?_, hrange.ambiguities, ?_⟩, a.join b, ⟨⟨⟨?_, hrange.leaves⟩, ⟨?_, ?_⟩, ⟨?_, ?_⟩,
        ⟨?_, hle⟩, ⟨?_, hrange.ambiguities⟩, ?_⟩, rfl⟩, _, hseal, _, hvalid.validate,
        not_not.mpr (by rw [hbrackets]; rfl), rfl⟩
    all_goals omega

/-- The join of accepted states can be sealed when its frames can be counted. -/
theorem sealState_join_isOk (ha : a.Accepted roster ids) (hb : b.Accepted roster ids)
    (h : Adjacent a.context b.context) (hagree : Agree a.characterStates b.characterStates)
    (hrange : (a.join b).InRange) : (∃ r, (a.join b).sealState = .ok r)
      ↔ Json.fits (.int (a.context.frameCount + b.context.frameCount)) = true := by
  have hfits : ∀ {s : CompactState}, s.Accepted roster ids → Json.fits s.body = true :=
    fun hs => bodySha256_isOk.mp ⟨_, hs.hash⟩
  obtain ⟨_, hcontext, hstates, _⟩ := fits_body.mp (hfits ha)
  obtain ⟨_, hcontext', _⟩ := fits_body.mp (hfits hb)
  obtain ⟨hq, hcount, _, hfirst, _, hdenominator, hstep⟩ := fits_context.mp hcontext
  obtain ⟨_, _, _, _, hstop, _⟩ := fits_context.mp hcontext'
  rw [sealState_isOk, fits_body]
  constructor
  · intro hall
    obtain ⟨_, hjoined, _⟩ := hall
    exact (fits_context.mp hjoined).2.2.1
  · intro hframes
    have ht := ha.totals.join hb.totals (ha.length_eq hb) hrange
    have hinternal := ht.internal
    have hcross := ht.cross
    have hsum := ht.sum
    have hbrackets := hrange.brackets
    have hleaves := ha.committed.leaves
    have hleaves' := hb.committed.leaves
    have hambiguities := ha.ambiguities_nonneg
    have hambiguities' := hb.ambiguities_nonneg
    have hleavesFit : Json.fits (.int (a.leafEventSummaryCount + b.leafEventSummaryCount)) = true :=
      fits_word (by omega) hrange.leaves
    have hversion : Json.fits (.int 2) = true := fits_word (by decide) (by decide)
    refine ⟨hversion, fits_context.mpr ⟨hq, hcount, hframes, hfirst, hstop,
      hdenominator, hstep⟩, fun state hmem => ?_, hleavesFit, hleavesFit,
      fits_word hinternal (by omega), fits_word hcross (by omega), fits_word (by omega) hbrackets,
      fits_word (show 0 ≤ a.ambiguitySampleCount + b.ambiguitySampleCount by omega)
        hrange.ambiguities⟩
    obtain ⟨i, hi⟩ := List.getElem?_of_mem hmem
    obtain ⟨x, y, hx, hy, rfl⟩ := getElem?_mergedStates hi
    obtain ⟨identity, hidentity, hfitsx⟩ := ha.identity hx
    have hfitsy := hb.characters i y identity hy hidentity
    obtain ⟨mask, hvalid, _⟩ :=
      (hfitsx.merge hfitsy h ha.context hb.context (hagree i x y hx hy)).valid
    obtain ⟨hconrey, hordinal⟩ := fits_name (hstates x (List.mem_of_getElem? hx))
    exact hvalid.fits_toJson hconrey hordinal

/-- When combining succeeds. -/
theorem combine_states_isOk (ha : a.Accepted roster ids) (hb : b.Accepted roster ids)
    (h : Adjacent a.context b.context) : (∃ r, a.combine roster b = .ok r)
      ↔ Agree a.characterStates b.characterStates ∧ (a.join b).InRange
        ∧ Json.fits (.int (a.context.frameCount + b.context.frameCount)) = true := by
  constructor
  · intro hall
    obtain ⟨r, hr⟩ := hall
    obtain ⟨hagree, hrange, hseal⟩ := (combine_states_ok ha hb h).mp hr
    exact ⟨hagree, hrange, (sealState_join_isOk ha hb h hagree hrange).mp ⟨r, hseal⟩⟩
  · intro hall
    obtain ⟨hagree, hrange, hframes⟩ := hall
    obtain ⟨r, hseal⟩ := (sealState_join_isOk ha hb h hagree hrange).mpr hframes
    exact ⟨r, (combine_states_ok ha hb h).mpr ⟨hagree, hrange, hseal⟩⟩

/-! ## Associativity of the join -/

theorem mergedStates_assoc {xs ys zs : List CharacterRecord}
    (hy : ∀ y ∈ ys, ∃ start mask, Valid y start mask) :
    mergedStates (mergedStates xs ys) zs = mergedStates xs (mergedStates ys zs) := by
  induction ys generalizing xs zs with
  | nil => cases xs <;> rfl
  | cons y ys ih =>
      cases xs with
      | nil => rfl
      | cons x xs =>
          cases zs with
          | nil => rfl
          | cons z zs =>
              obtain ⟨start, mask, hvalid⟩ := hy y List.mem_cons_self
              have hrest := @ih xs zs fun y' hy' => hy y' (List.mem_cons_of_mem y hy')
              simp only [mergedStates, List.zipWith_cons_cons] at hrest ⊢
              rw [hrest, merge_assoc_of_valid hvalid]

theorem CompactState.Accepted.valid (ha : a.Accepted roster ids) :
    ∀ x ∈ a.characterStates, ∃ start mask, Valid x start mask := by
  intro x hx
  obtain ⟨i, hi⟩ := List.getElem?_of_mem hx
  obtain ⟨_, _, hfits⟩ := ha.identity hi
  obtain ⟨mask, hvalid, _⟩ := hfits.valid
  exact ⟨_, mask, hvalid⟩

theorem length_mergedStates {xs ys : List CharacterRecord} (hlength : xs.length = ys.length) :
    (mergedStates xs ys).length = xs.length := by
  rw [mergedStates, List.length_zipWith, ← hlength, min_self]

theorem joined_commitment (a b : CompactState) :
    hexValue (a.join b).leafEventSummaryCommitment.valueHex
      = joinCommitments (hexValue a.leafEventSummaryCommitment.valueHex) b.leafEventSummaryCount
        (hexValue b.leafEventSummaryCommitment.valueHex) := by
  simp only [commitment_join, compactStateCommitment]
  rw [hexValue_hex64 (joinCommitments_lt _ _ _)]

theorem joinCommitments_assoc {m n : Int} (hm : 0 ≤ m) (hn : 0 ≤ n) (x y z : Nat) :
    joinCommitments (joinCommitments x m y) n z
      = joinCommitments x (m + n) (joinCommitments y n z) := by
  unfold joinCommitments
  rw [RollingHash.join_assoc, Int.toNat_add hm hn]

/-- **The join does not depend on the grouping.** -/
theorem join_assoc (a : CompactState) (hb : b.Accepted roster ids) (hc : c.Accepted roster ids) :
    (a.join b).join c = a.join (b.join c) := by
  have hstates : ((a.join b).join c).characterStates = (a.join (b.join c)).characterStates :=
    mergedStates_assoc hb.valid
  have hinserted :
      insertedCrossings a.characterStates b.characterStates
          + insertedCrossings (a.join b).characterStates c.characterStates
        = insertedCrossings b.characterStates c.characterStates
          + insertedCrossings a.characterStates (b.join c).characterStates := by
    have htotal := congrArg bracketTotal hstates
    simp only [insertedCrossings, join] at htotal ⊢
    omega
  have hleaves := hb.committed.leaves
  have hleaves' := hc.committed.leaves
  have hcommitment : ((a.join b).join c).leafEventSummaryCommitment
      = (a.join (b.join c)).leafEventSummaryCommitment := by
    rw [commitment_join (a.join b) c, commitment_join a (b.join c), joined_commitment a b,
      joined_commitment b c, joinCommitments_assoc (by omega) (by omega)]
    simp only [join, Int.add_assoc]
  refine CompactState.ext rfl rfl rfl ?_ hstates (Int.add_assoc ..) hcommitment
    (Int.add_assoc ..) ?_ ?_ (Int.add_assoc ..) rfl rfl rfl rfl rfl rfl rfl
  · simp only [join, joinContexts, Int.add_assoc]
  · simp only [join] at hinserted ⊢
    omega
  · simp only [join] at hinserted ⊢
    omega

end AttestedCompute.Dirichlet
