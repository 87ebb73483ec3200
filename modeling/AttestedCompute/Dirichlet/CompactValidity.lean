import AttestedCompute.Dirichlet.ChunkCombine
import AttestedCompute.Dirichlet.CompactState

/-!
# What a valid compact state says

`validate_compact_state_summary` accepts a state exactly when its context is on the source
grid, its characters are those of the roster and cover the whole grid, its totals are the
sums over the characters, and its hash is the hash of its body (`validate_ok_iff`). All the
integers of its records but their names are machine words, so they can be printed.
-/

namespace AttestedCompute.Dirichlet

open Fallible CharacterRecord

/-- The contexts of valid states. -/
structure CompactContext.OnGrid (context : CompactContext) : Prop where
  q : 1 ≤ context.q
  count : 0 ≤ context.primitiveCharacterCount
  frames : 1 ≤ context.frameCount
  first : 0 ≤ context.firstTNumerator
  stop : context.firstTNumerator ≤ context.stopTNumerator
  denominator : context.tDenominator = SOURCE_SAMPLE_DENOMINATOR
  step : context.tStepNumerator = SOURCE_SAMPLE_NUMERATOR
  whole : (context.stopTNumerator - context.firstTNumerator) % SOURCE_SAMPLE_NUMERATOR = 0

/-- The record is the one of the roster, over every sample of the grid. -/
structure CharacterFits (context : CompactContext) (ordinal : Int) (state : CharacterRecord)
    (identity : RosterIdentity) : Prop where
  index : state.primitiveOrdinal = ordinal
  rosterIndex : identity.primitiveOrdinal = ordinal
  conrey : state.conreyNumber = identity.conreyNumber
  parity : state.parity.val = identity.parity
  valid : ∃ mask, Valid state context.firstTNumerator mask
    ∧ (mask.length : Int) = context.samples

def bracketTotal (states : List CharacterRecord) : Int := (states.map (·.bracketCount)).sum

def ambiguityTotal (states : List CharacterRecord) : Int := (states.map (·.ambiguityCount)).sum

variable {context : CompactContext} {ordinal : Int} {state : CharacterRecord}
  {identity : RosterIdentity} {mask : List Bool} {roster : Roster} {value : CompactState}

theorem requireInteger_ok {name : String} {n minimum : Int} {u : Unit} :
    requireInteger name n minimum = .ok u ↔ minimum ≤ n := by
  rw [requireInteger, failIf_ok, not_lt]

/-! ## The context -/

theorem checkContext_ok {u : Unit} : CompactState.checkContext context = .ok u ↔ context.OnGrid := by
  simp only [CompactState.checkContext, bind_ok, requireInteger_ok, failIf_ok, not_or, not_not,
    ne_eq, exists_const]
  constructor
  · intro hall
    obtain ⟨hq, hcount, hframes, hfirst, hstop, hdenominator, hstep, hwhole⟩ := hall
    exact ⟨hq, hcount, hframes, hfirst, hstop, hdenominator, hstep, hwhole⟩
  · intro h
    exact ⟨h.q, h.count, h.frames, h.first, h.stop, h.denominator, h.step, h.whole⟩

/-- The samples of the grid end where the context says. -/
theorem CompactContext.OnGrid.after_samples (h : context.OnGrid)
    (hlength : (mask.length : Int) = context.samples) :
    after context.firstTNumerator mask.length = context.stopTNumerator := by
  have hwhole := h.whole
  rw [CompactContext.samples] at hlength
  simp only [after, SOURCE_SAMPLE_NUMERATOR] at hwhole hlength ⊢
  omega

/-! ## One character -/

theorem boundaryNumerators_ok {numerators : List Int} :
    CompactState.boundaryNumerators state = .ok numerators
      ↔ (state.firstDeterminateNumerator = none ∧ numerators = [])
        ∨ ∃ first last, state.firstDeterminateNumerator = some first
          ∧ state.lastDeterminateNumerator = some last ∧ numerators = [first, last] := by
  unfold CompactState.boundaryNumerators
  split
  · rename_i hfirst
    rw [pure_ok]
    simp [hfirst, eq_comm]
  · rename_i first last hfirst hlast
    rw [pure_ok]
    simp [hfirst, hlast, eq_comm]
  · rename_i hfirst hlast
    simp [hfirst, hlast]

/-- The ordinates of the first and the last determinate sample are on the grid. -/
theorem Valid.boundary_onGrid (h : Valid state context.firstTNumerator mask)
    (hcontext : context.OnGrid) (hlength : (mask.length : Int) = context.samples) :
    ∃ numerators, CompactState.boundaryNumerators state = .ok numerators
      ∧ ∀ numerator ∈ numerators, context.firstTNumerator ≤ numerator
        ∧ numerator < context.stopTNumerator
        ∧ (numerator - context.firstTNumerator) % SOURCE_SAMPLE_NUMERATOR = 0 := by
  have hstop := hcontext.after_samples hlength
  by_cases hmask : true ∈ mask
  · obtain ⟨lo, hi, hends⟩ := exists_maskEnds context.firstTNumerator hmask
    have hlt := hends.lt_length
    have hle := (hends.inside lo hends.lowMark).2
    have hinside : ∀ i ≤ hi, context.firstTNumerator ≤ after context.firstTNumerator i
        ∧ after context.firstTNumerator i < context.stopTNumerator
        ∧ (after context.firstTNumerator i - context.firstTNumerator) % SOURCE_SAMPLE_NUMERATOR
          = 0 := by
      intro i hi
      rw [← hstop]
      simp only [after, SOURCE_SAMPLE_NUMERATOR]
      omega
    refine ⟨_, boundaryNumerators_ok.mpr
      (.inr ⟨_, _, h.first.trans hends.first, h.last.trans hends.last, rfl⟩), ?_⟩
    intro numerator hmem
    rcases List.mem_cons.mp hmem with heq | hmem
    · exact heq ▸ hinside lo hle
    · exact List.mem_singleton.mp hmem ▸ hinside hi (le_refl hi)
  · have hnone : state.firstDeterminateNumerator = none := by
      rw [← Option.not_isSome_iff_eq_none, h.isSome_first]
      exact hmask
    exact ⟨[], boundaryNumerators_ok.mpr (.inl ⟨hnone, rfl⟩), fun _ hmem => by cases hmem⟩

/-- Valid records whose span is the grid. -/
theorem valid_of_span (hvalid : state.validate = .ok ())
    (hsamples : state.sampleCount = context.samples) {ends : Option (Int × Int)}
    (hspan : state.span = .ok ends)
    (hends : context.samples ≠ 0 →
      ends = some (context.firstTNumerator, context.stopTNumerator)) :
    ∃ mask, Valid state context.firstTNumerator mask
      ∧ (mask.length : Int) = context.samples := by
  obtain ⟨start, mask, h⟩ := validate_iff.mp hvalid
  have hlength := h.sampleCount.symm.trans hsamples
  by_cases hne : mask = []
  · subst hne
    exact ⟨[], h.rebase _, hlength⟩
  · have hpos : context.samples ≠ 0 := by
      rw [← hlength]
      exact_mod_cast mt List.length_eq_zero_iff.mp hne
    rw [h.span hne, hends hpos] at hspan
    have hstart : start = context.firstTNumerator :=
      congrArg Prod.fst (Option.some.inj (Except.ok.inj hspan))
    exact ⟨mask, hstart ▸ h, hlength⟩

theorem checkCharacter_ok (hcontext : context.OnGrid) :
    CompactState.checkCharacter context ordinal state identity = .ok ()
      ↔ CharacterFits context ordinal state identity := by
  simp only [CompactState.checkCharacter, bind_ok, failIf_ok, not_or, not_not, ne_eq,
    exists_const, not_and, not_exists]
  constructor
  · intro hall
    obtain ⟨⟨hordinal, hroster, hconrey, hparity⟩, _, hvalid, hsamples, ends, hspan, hends, _⟩ := hall
    exact ⟨hordinal, hroster.symm.trans hordinal, hconrey, hparity,
      valid_of_span hvalid hsamples hspan hends⟩
  · intro h
    obtain ⟨mask, hvalid, hlength⟩ := h.valid
    obtain ⟨numerators, hnumerators, hinside⟩ := hvalid.boundary_onGrid hcontext hlength
    have hspan : ∃ ends, state.span = .ok ends ∧ (context.samples ≠ 0 →
        ends = some (context.firstTNumerator, context.stopTNumerator)) := by
      by_cases hne : mask = []
      · subst hne
        exact ⟨none, hvalid.span_nil, fun hpos => absurd hlength.symm hpos⟩
      · refine ⟨_, hvalid.span hne, fun _ => ?_⟩
        rw [hcontext.after_samples hlength]
    obtain ⟨ends, hspan, hends⟩ := hspan
    refine ⟨⟨h.index, h.index.trans h.rosterIndex.symm, h.conrey, h.parity⟩, (),
      hvalid.validate, hvalid.sampleCount.trans hlength, ends, hspan, hends, numerators,
      hnumerators, fun numerator hmem => ?_⟩
    obtain ⟨hlow, hhigh, hgrid⟩ := hinside numerator hmem
    exact ⟨not_lt.mpr hlow, not_le.mpr hhigh, hgrid⟩

/-! ## All characters -/

/-- The characters fit, counted from an ordinal. -/
def CharactersFit (context : CompactContext) : Int → List (CharacterRecord × RosterIdentity) → Prop
  | _, [] => True
  | ordinal, (state, identity) :: rest =>
      CharacterFits context ordinal state identity ∧ CharactersFit context (ordinal + 1) rest

theorem charactersFit_iff {pairs : List (CharacterRecord × RosterIdentity)} :
    CharactersFit context ordinal pairs
      ↔ ∀ (i : Nat) state identity, pairs[i]? = some (state, identity) →
        CharacterFits context (ordinal + i) state identity := by
  induction pairs generalizing ordinal with
  | nil => simp [CharactersFit]
  | cons pair rest ih =>
      rw [CharactersFit, ih]
      constructor
      · intro hall i state identity hi
        obtain ⟨hhead, hrest⟩ := hall
        cases i with
        | zero =>
            rw [List.getElem?_cons_zero, Option.some.injEq] at hi
            subst hi
            rwa [Nat.cast_zero, Int.add_zero]
        | succ i =>
            have h := hrest i state identity hi
            rwa [show ordinal + 1 + (i : Int) = ordinal + (i + 1 : Nat) by push_cast; omega] at h
      · intro h
        refine ⟨?_, fun i state identity hi => ?_⟩
        · have hhead := h 0 pair.1 pair.2 rfl
          rwa [Nat.cast_zero, Int.add_zero] at hhead
        · have hrest := h (i + 1) state identity hi
          rwa [show ordinal + (i + 1 : Nat) = ordinal + 1 + (i : Int) by push_cast; omega] at hrest

theorem Valid.counts_nonneg {start : Int} (h : Valid state start mask) :
    0 ≤ state.bracketCount ∧ 0 ≤ state.ambiguityCount := by
  rw [h.bracketCount, h.ambiguityCount]
  omega

theorem totals_cons (state : CharacterRecord) (states : List CharacterRecord) :
    bracketTotal (state :: states) = state.bracketCount + bracketTotal states
      ∧ ambiguityTotal (state :: states) = state.ambiguityCount + ambiguityTotal states :=
  ⟨rfl, rfl⟩

theorem CharactersFit.totals_nonneg {pairs : List (CharacterRecord × RosterIdentity)}
    (h : CharactersFit context ordinal pairs) :
    0 ≤ bracketTotal (pairs.map (·.1)) ∧ 0 ≤ ambiguityTotal (pairs.map (·.1)) := by
  induction pairs generalizing ordinal with
  | nil => exact ⟨le_refl 0, le_refl 0⟩
  | cons pair rest ih =>
      obtain ⟨state, identity⟩ := pair
      obtain ⟨hfits, htail⟩ := h
      obtain ⟨_, hvalid, _⟩ := hfits.valid
      obtain ⟨hhead, hhead'⟩ := hvalid.counts_nonneg
      obtain ⟨hrest, hrest'⟩ := ih htail
      obtain ⟨hbrackets, hambiguities⟩ := totals_cons state (rest.map (·.1))
      rw [List.map_cons, hbrackets, hambiguities]
      omega

theorem charactersFit_zip {states : List CharacterRecord} {identities : List RosterIdentity} :
    CharactersFit context 0 (states.zip identities)
      ↔ ∀ (i : Nat) state identity, states[i]? = some state → identities[i]? = some identity →
        CharacterFits context i state identity := by
  simp only [charactersFit_iff, List.getElem?_zip_eq_some, Int.zero_add, and_imp]

/-- **The loop over the roster.** The running totals stay in range exactly when the final
ones do, since no character counts less than nothing. -/
theorem checkCharacters_ok (hcontext : context.OnGrid)
    {pairs : List (CharacterRecord × RosterIdentity)} {b m : Int} {totals : Int × Int}
    (hb : b ≤ MAX_EVENT_COUNT) (hm : m ≤ MAX_EVENT_COUNT) :
    CompactState.checkCharacters context ordinal b m pairs = .ok totals
      ↔ CharactersFit context ordinal pairs
        ∧ totals = (b + bracketTotal (pairs.map (·.1)), m + ambiguityTotal (pairs.map (·.1)))
        ∧ totals.1 ≤ MAX_EVENT_COUNT ∧ totals.2 ≤ MAX_EVENT_COUNT := by
  induction pairs generalizing ordinal b m with
  | nil =>
      simp only [CompactState.checkCharacters, pure_ok, CharactersFit, List.map_nil, bracketTotal,
        ambiguityTotal, List.sum_nil, Int.add_zero, true_and]
      constructor
      · intro h
        subst h
        exact ⟨rfl, hb, hm⟩
      · intro h
        exact h.1.symm
  | cons pair rest ih =>
      obtain ⟨state, identity⟩ := pair
      simp only [CompactState.checkCharacters, bind_ok, checkCharacter_ok hcontext, failIf_ok,
        not_or, not_lt, gt_iff_lt, exists_const, CharactersFit]
      obtain ⟨hbrackets, hambiguities⟩ := totals_cons state (rest.map (·.1))
      rw [List.map_cons, hbrackets, hambiguities, ← Int.add_assoc, ← Int.add_assoc]
      constructor
      · intro hall
        obtain ⟨hfits, ⟨hb', hm'⟩, hrest⟩ := hall
        obtain ⟨htail, heq, hle, hle'⟩ := (ih hb' hm').mp hrest
        exact ⟨⟨hfits, htail⟩, heq, hle, hle'⟩
      · intro hall
        obtain ⟨⟨hfits, htail⟩, heq, hle, hle'⟩ := hall
        obtain ⟨hpos, hpos'⟩ := htail.totals_nonneg
        have htotals : totals.1 = b + state.bracketCount + bracketTotal (rest.map (·.1))
            ∧ totals.2 = m + state.ambiguityCount + ambiguityTotal (rest.map (·.1)) := by
          rw [heq]
          exact ⟨rfl, rfl⟩
        have hb' : b + state.bracketCount ≤ MAX_EVENT_COUNT := by omega
        have hm' : m + state.ambiguityCount ≤ MAX_EVENT_COUNT := by omega
        exact ⟨hfits, ⟨hb', hm'⟩, (ih hb' hm').mpr ⟨htail, heq, hle, hle'⟩⟩

/-! ## The state -/

namespace CompactState

/-- The constant fields of a state. -/
structure Labelled (value : CompactState) : Prop where
  schema : value.schema = COMPACT_STATE_SCHEMA
  version : value.schemaVersion = 2
  classification : value.classification = COMPACT_STATE_CLASSIFICATION
  ranges : value.exactAmbiguityRangesRetained = true
  brackets : value.orderedBracketRecordsRetained = true
  refinement : value.refinementArtifactsComplete = false
  turing : value.turingCompleteness = false
  encoding : value.sourceScaleStateEncoding = false
  atom : value.externalAtomDischarged = false

theorem checkIdentity_ok {u : Unit} : value.checkIdentity = .ok u
    ↔ value.Labelled ∧ value.bodySha256 = .ok value.stateSha256 := by
  simp only [checkIdentity, bind_ok, failIf_ok, not_or, not_not, ne_eq, exists_const,
    Bool.not_eq_true, Bool.not_eq_false]
  constructor
  · intro hall
    obtain ⟨⟨h₁, h₂, h₃, h₄, h₅, h₆, h₇, h₈, h₉⟩, hash, hhash, heq⟩ := hall
    exact ⟨⟨h₁, h₂, h₃, h₄, h₅, h₆, h₇, h₈, h₉⟩, heq ▸ hhash⟩
  · intro hall
    obtain ⟨h, hhash⟩ := hall
    exact ⟨⟨h.schema, h.version, h.classification, h.ranges, h.brackets, h.refinement, h.turing,
      h.encoding, h.atom⟩, _, hhash, rfl⟩

/-- A commitment to as many leaves as the state counts. -/
structure Committed (value : CompactState) : Prop where
  leaves : 1 ≤ value.leafEventSummaryCount
  leaves_le : value.leafEventSummaryCount ≤ MAX_EVENT_COUNT
  modulus : value.leafEventSummaryCommitment.modulusHex = hex64 ROLLING_MODULUS
  base : value.leafEventSummaryCommitment.baseHex = hex64 ROLLING_BASE
  count : value.leafEventSummaryCommitment.leafCount.val = value.leafEventSummaryCount
  combination : value.leafEventSummaryCommitment.combination = COMBINATION
  length : value.leafEventSummaryCommitment.valueHex.length = 64
  digits : ∀ c ∈ value.leafEventSummaryCommitment.valueHex, (hexDigitOf c).isSome = true
  lt : hexValue value.leafEventSummaryCommitment.valueHex < ROLLING_MODULUS

theorem checkCommitment_ok {u : Unit} : value.checkCommitment = .ok u ↔ value.Committed := by
  simp only [checkCommitment, bind_ok, requireInteger_ok, failIf_ok, not_or, not_not, ne_eq,
    exists_const, gt_iff_lt, ge_iff_le, not_lt, not_le, Bool.not_eq_false, List.all_eq_true]
  constructor
  · intro hall
    obtain ⟨hleaves, ⟨hle, hmodulus, hbase, hcount, hcombination⟩, hlength, hdigits, hlt⟩ := hall
    exact ⟨hleaves, hle, hmodulus, hbase, hcount, hcombination, hlength, hdigits, hlt⟩
  · intro h
    exact ⟨h.leaves, ⟨h.leaves_le, h.modulus, h.base, h.count, h.combination⟩, h.length, h.digits,
      h.lt⟩

/-- The totals of a state. -/
structure Totalled (value : CompactState) : Prop where
  internal : 0 ≤ value.internalSignChangeCount
  cross : 0 ≤ value.crossBoundarySignChangeCount
  sum : value.internalSignChangeCount + value.crossBoundarySignChangeCount
    = value.signChangeLowerBound
  brackets : bracketTotal value.characterStates = value.signChangeLowerBound
  brackets_le : value.signChangeLowerBound ≤ MAX_EVENT_COUNT
  ambiguities : ambiguityTotal value.characterStates = value.ambiguitySampleCount
  ambiguities_le : value.ambiguitySampleCount ≤ MAX_EVENT_COUNT

/-- **A state that `validate_compact_state_summary` accepts.** -/
structure Accepted (roster : Roster) (value : CompactState) (identities : List RosterIdentity) :
    Prop where
  labelled : value.Labelled
  hash : value.bodySha256 = .ok value.stateSha256
  context : value.context.OnGrid
  roster : roster value.context.q = .ok identities
  stateCount : (value.characterStates.length : Int) = value.context.primitiveCharacterCount
  identityCount : (identities.length : Int) = value.context.primitiveCharacterCount
  characters : ∀ (i : Nat) state identity, value.characterStates[i]? = some state →
    identities[i]? = some identity → CharacterFits value.context i state identity
  totals : value.Totalled
  committed : value.Committed

/-- What validation returns. -/
def summary (value : CompactState) : Summary :=
  ⟨value.context.q, value.signChangeLowerBound, value.ambiguitySampleCount,
    value.leafEventSummaryCount⟩

theorem checkTotals_ok {b m : Int} {u : Unit} : value.checkTotals b m = .ok u
    ↔ 0 ≤ value.internalSignChangeCount ∧ 0 ≤ value.crossBoundarySignChangeCount
      ∧ value.internalSignChangeCount + value.crossBoundarySignChangeCount
        = value.signChangeLowerBound
      ∧ b = value.signChangeLowerBound ∧ value.signChangeLowerBound ≤ MAX_EVENT_COUNT
      ∧ m = value.ambiguitySampleCount ∧ 0 ≤ value.ambiguitySampleCount
      ∧ value.ambiguitySampleCount ≤ MAX_EVENT_COUNT := by
  simp only [checkTotals, bind_ok, requireInteger_ok, failIf_ok, not_or, not_not, ne_eq,
    exists_const, gt_iff_lt, not_lt]
  constructor
  · intro hall
    obtain ⟨hinternal, hcross, _, hpos, _, _, hle, hle', hsum, hb, hm⟩ := hall
    exact ⟨hinternal, hcross, hsum, hb, hle, hm, hpos, hle'⟩
  · intro hall
    obtain ⟨hinternal, hcross, hsum, hb, hle, hm, hpos, hle'⟩ := hall
    exact ⟨hinternal, hcross, by omega, hpos, by omega, by omega, hle, hle', hsum, hb, hm⟩

theorem Accepted.zip_fst {identities : List RosterIdentity} (h : value.Accepted roster identities) :
    (value.characterStates.zip identities).map (·.1) = value.characterStates := by
  have hstates := h.stateCount
  have hidentities := h.identityCount
  exact List.map_fst_zip (by omega)

theorem Accepted.ambiguities_nonneg {identities : List RosterIdentity}
    (h : value.Accepted roster identities) : 0 ≤ value.ambiguitySampleCount := by
  have hpos := (charactersFit_zip.mpr h.characters).totals_nonneg.2
  rwa [h.zip_fst, h.totals.ambiguities] at hpos

/-- **Validation accepts what it should.** -/
theorem validate_ok_iff {result : Summary} : value.validate roster = .ok result
    ↔ (∃ identities, value.Accepted roster identities) ∧ result = value.summary := by
  have hzero : (0 : Int) ≤ MAX_EVENT_COUNT := by decide
  simp only [validate, bind_ok, pure_ok, failIf_ok, not_or, not_not, ne_eq, exists_const,
    checkIdentity_ok, checkContext_ok, checkTotals_ok, checkCommitment_ok]
  constructor
  · intro hall
    obtain ⟨⟨hlabelled, hhash⟩, hcontext, identities, hroster, ⟨hstates, hidentities⟩,
      totals, hcharacters, ⟨hinternal, hcross, hsum, hb, hle, hm, _, hle'⟩, hcommitted, hresult⟩ := hall
    obtain ⟨hall, htotals, _, _⟩ := (checkCharacters_ok hcontext hzero hzero).mp hcharacters
    have hzip : (value.characterStates.zip identities).map (·.1) = value.characterStates :=
      List.map_fst_zip (by omega)
    rw [hzip, Int.zero_add, Int.zero_add] at htotals
    rw [htotals] at hb hm
    exact ⟨⟨identities, hlabelled, hhash, hcontext, hroster, hstates, hidentities,
      charactersFit_zip.mp hall, ⟨hinternal, hcross, hsum, hb, hle, hm, hle'⟩, hcommitted⟩,
      hresult.symm⟩
  · intro hall
    obtain ⟨⟨identities, h⟩, hresult⟩ := hall
    have ht := h.totals
    refine ⟨⟨h.labelled, h.hash⟩, h.context, identities, h.roster, ⟨h.stateCount, h.identityCount⟩,
      (value.signChangeLowerBound, value.ambiguitySampleCount), ?_,
      ⟨ht.internal, ht.cross, ht.sum, rfl, ht.brackets_le, rfl, h.ambiguities_nonneg,
        ht.ambiguities_le⟩, h.committed, hresult.symm⟩
    refine (checkCharacters_ok h.context hzero hzero).mpr
      ⟨charactersFit_zip.mpr h.characters, ?_, ht.brackets_le, ht.ambiguities_le⟩
    rw [h.zip_fst, Int.zero_add, Int.zero_add, ht.brackets, ht.ambiguities]

end CompactState

/-! ## Printing a state -/

section

variable {state : CharacterRecord} {start : Int} {mask : List Bool}

theorem fits_object {members : List (String × Json)} :
    Json.fits (object members) = true ↔ ∀ member ∈ members, Json.fits member.2 = true := by
  rw [object, Json.fits_obj]
  exact List.forall_mem_map

theorem fits_word {n : Int} (hlow : 0 ≤ n) (hhigh : n ≤ MAX_EVENT_COUNT) :
    Json.fits (.int n) = true := by
  refine Json.fits_int_of_word ?_
  simp only [MAX_EVENT_COUNT] at hhigh
  omega

theorem fits_pyInt {p : PyInt} (h : p.val = -1 ∨ p.val = 0 ∨ p.val = 1) :
    Json.fits p.toJson = true := by
  cases p with
  | int n =>
      rw [PyInt.val_int] at h
      exact Json.fits_int_of_word (by omega)
  | bool b => rfl

theorem fits_sign {p : PyInt} (h : isSign p = true) : Json.fits p.toJson = true := by
  simp only [isSign, Bool.or_eq_true, decide_eq_true_eq] at h
  exact fits_pyInt (by omega)

theorem fits_optional {value : Option Int} (h : ∀ n ∈ value, Json.fits (.int n) = true) :
    Json.fits (optional value) = true := by
  cases value with
  | none => rfl
  | some n => exact h n rfl

/-- The ordinates of a valid record are machine words. -/
theorem Valid.fits_after (h : Valid state start mask) {i : Nat} (hi : i < mask.length) :
    Json.fits (.int (after start i)) = true := by
  have hne : mask ≠ [] := List.ne_nil_of_length_pos (by omega)
  obtain ⟨hlow, hhigh⟩ := h.inGrid hne
  simp only [after, SOURCE_SAMPLE_NUMERATOR] at hhigh ⊢
  exact fits_word (by omega) (by omega)

theorem Valid.fits_range (h : Valid state start mask) :
    ∀ range ∈ state.ambiguityRanges, Json.fits range.toJson = true := by
  intro range hrange
  have hne : mask ≠ [] := by
    intro hnil
    rw [h.ranges, hnil] at hrange
    cases hrange
  obtain ⟨hlow, hhigh⟩ := h.inGrid hne
  rw [h.ranges] at hrange
  obtain ⟨⟨hfirst, _⟩, hlt, hstop⟩ := (maximalRuns_plot start mask).bounds range hrange
  rw [AmbiguityRange.toJson, fits_object]
  simp only [List.forall_mem_cons, List.not_mem_nil, false_implies, implies_true, and_true]
  exact ⟨fits_word (by omega) (by omega), fits_word (by omega) (by omega)⟩

theorem fits_bracket {b : BracketRecord} {j k : Nat} (h : Valid state start mask)
    (hspans : b.Spans start mask j k) (hlower : isSign b.lowerSign = true)
    (hupper : isSign b.upperSign = true) : Json.fits b.toJson = true := by
  have hk := (List.getElem?_eq_some_iff.mp hspans.upperMark).1
  have hlt := hspans.lt
  have hlength := h.length_le
  rw [BracketRecord.toJson, fits_object]
  simp only [List.forall_mem_cons, List.not_mem_nil, false_implies, implies_true, and_true]
  refine ⟨?_, ?_, fits_sign hlower, fits_sign hupper, ?_⟩
  · rw [hspans.lower]
    exact h.fits_after (by omega)
  · rw [hspans.upper]
    exact h.fits_after hk
  · rw [hspans.intervening]
    exact fits_word (by omega) (by omega)

theorem fits_brackets (h : Valid state start mask) {bs : List BracketRecord} {i : Nat}
    {sign last : Int} (hchanges : SignChanges start mask i bs) (hchain : SignChain sign bs last) :
    ∀ b ∈ bs, Json.fits b.toJson = true := by
  induction bs generalizing i sign with
  | nil => exact fun _ hb => by cases hb
  | cons b rest ih =>
      obtain ⟨j, k, _, hspans, hrest⟩ := hchanges
      obtain ⟨_, hlower, hupper, _, hchain⟩ := hchain
      intro b' hb
      rcases List.mem_cons.mp hb with heq | hb
      · exact heq ▸ fits_bracket h hspans hlower hupper
      · exact ih hrest hchain b' hb

/-- A valid record prints when its name does. -/
theorem Valid.fits_toJson (h : Valid state start mask)
    (hconrey : Json.fits (.int state.conreyNumber) = true)
    (hordinal : Json.fits (.int state.primitiveOrdinal) = true) :
    Json.fits state.toJson = true := by
  have hsmall : ∀ count ∈ state.counters, Json.fits (.int count) = true := by
    intro count hcount
    obtain ⟨hlow, hhigh⟩ := isUint64_iff.mp ((checkCounters_ok.mp h.checkCounters).1 count hcount)
    exact fits_word hlow hhigh
  simp only [counters, List.forall_mem_cons, List.not_mem_nil, false_implies, implies_true,
    and_true] at hsmall
  obtain ⟨hsamples, hleading, htrailing, hambiguity, hpositive, hnegative, hbracket,
    hmultiplicity⟩ := hsmall
  have hsigns : Json.fits state.firstSign.toJson = true
      ∧ Json.fits state.lastSign.toJson = true := by
    by_cases hmask : true ∈ mask
    · exact ⟨fits_sign (h.signs hmask).1, fits_sign (h.signs hmask).2⟩
    · exact ⟨fits_pyInt (.inr (.inl (h.noSigns hmask).1)),
        fits_pyInt (.inr (.inl (h.noSigns hmask).2))⟩
  have hboundary : (∀ n ∈ state.firstDeterminateNumerator, Json.fits (.int n) = true)
      ∧ ∀ n ∈ state.lastDeterminateNumerator, Json.fits (.int n) = true := by
    rw [h.first, h.last]
    by_cases hmask : true ∈ mask
    · obtain ⟨lo, hi, hends⟩ := exists_maskEnds start hmask
      have hlt := hends.lt_length
      have hle := (hends.inside lo hends.lowMark).2
      rw [hends.first, hends.last]
      exact ⟨fun n hn => Option.some.inj hn ▸ h.fits_after (by omega),
        fun n hn => Option.some.inj hn ▸ h.fits_after hlt⟩
    · have hnone : (plot start mask).firstDeterminateNumerator = none := by
        rw [← Option.not_isSome_iff_eq_none, plot_first_isSome]
        exact hmask
      have hnone' : (plot start mask).lastDeterminateNumerator = none := by
        rw [← Option.not_isSome_iff_eq_none, plot_sameEnds, plot_first_isSome]
        exact hmask
      rw [hnone, hnone']
      exact ⟨fun _ hn => (by cases hn), fun _ hn => (by cases hn)⟩
  have hbrackets : ∀ b ∈ state.bracketRecords, Json.fits b.toJson = true := by
    by_cases hnil : state.bracketRecords = []
    · rw [hnil]
      exact fun _ hb => by cases hb
    · exact fits_brackets h h.changes (h.chain hnil)
  rw [CharacterRecord.toJson, fits_object]
  simp only [List.forall_mem_cons, List.not_mem_nil, false_implies, implies_true, and_true]
  exact ⟨hconrey, hordinal, fits_pyInt (.inr h.parity), hsamples, fits_optional hboundary.1,
    hsigns.1, fits_optional hboundary.2, hsigns.2, hleading, htrailing, hambiguity, hpositive,
    hnegative, hbracket, hmultiplicity, Json.fits_arr.mpr (List.forall_mem_map.mpr h.fits_range),
    Json.fits_arr.mpr (List.forall_mem_map.mpr hbrackets)⟩

/-- The name of a record that prints. -/
theorem fits_name (h : Json.fits state.toJson = true) :
    Json.fits (.int state.conreyNumber) = true
      ∧ Json.fits (.int state.primitiveOrdinal) = true := by
  rw [CharacterRecord.toJson, fits_object] at h
  exact ⟨h ("conrey_number", _) (by simp), h ("primitive_ordinal", _) (by simp)⟩

end

theorem fits_context {context : CompactContext} : Json.fits context.toJson = true
    ↔ Json.fits (.int context.q) = true ∧ Json.fits (.int context.primitiveCharacterCount) = true
      ∧ Json.fits (.int context.frameCount) = true
      ∧ Json.fits (.int context.firstTNumerator) = true
      ∧ Json.fits (.int context.stopTNumerator) = true
      ∧ Json.fits (.int context.tDenominator) = true
      ∧ Json.fits (.int context.tStepNumerator) = true := by
  rw [CompactContext.toJson, fits_object]
  simp only [List.forall_mem_cons, List.not_mem_nil, false_implies, implies_true, and_true]

open CompactState in
theorem fits_body {s : CompactState} : Json.fits s.body = true
    ↔ Json.fits (.int s.schemaVersion) = true ∧ Json.fits s.context.toJson = true
      ∧ (∀ state ∈ s.characterStates, Json.fits state.toJson = true)
      ∧ Json.fits (.int s.leafEventSummaryCount) = true
      ∧ Json.fits s.leafEventSummaryCommitment.leafCount.toJson = true
      ∧ Json.fits (.int s.internalSignChangeCount) = true
      ∧ Json.fits (.int s.crossBoundarySignChangeCount) = true
      ∧ Json.fits (.int s.signChangeLowerBound) = true
      ∧ Json.fits (.int s.ambiguitySampleCount) = true := by
  have htext : ∀ t, Json.fits (.str t) = true := fun _ => rfl
  have hbool : ∀ b, Json.fits (.bool b) = true := fun _ => rfl
  have hcommitment : Json.fits s.leafEventSummaryCommitment.toJson = true
      ↔ Json.fits s.leafEventSummaryCommitment.leafCount.toJson = true := by
    rw [LeafCommitment.toJson, fits_object]
    simp only [List.forall_mem_cons, List.not_mem_nil, false_implies, implies_true, and_true,
      htext, true_and]
  rw [body, fits_object]
  simp only [List.forall_mem_cons, List.not_mem_nil, false_implies, implies_true, and_true,
    htext, hbool, true_and, hcommitment, Json.fits_arr, List.forall_mem_map]

end AttestedCompute.Dirichlet
