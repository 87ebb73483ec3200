import AttestedCompute.CompactV3.State

/-!
# Normalizing a character state

`_normalize_state` takes a row of some producer, checks it against the grid and derives from its
maximal ranges what can be derived. What it returns is a fixed point: a normalized state normalizes
to itself, and no field of it depends on how the row spelled the derived ones.
-/

namespace AttestedCompute.CompactV3

open Fallible

/-- `_uint`, for a value that may be absent. -/
def uint (name : String) (value : Option Int) (maximum : Int := MAX_EVENT_COUNT) : Checked Int :=
  match value with
  | none => .error (.failed (name ++ " is outside its fixed unsigned bound"))
  | some value => do
      failIf (¬ (0 ≤ value ∧ value ≤ maximum)) (name ++ " is outside its fixed unsigned bound")
      pure value

theorem uint_ok {name : String} {value : Option Int} {maximum n : Int} :
    uint name value maximum = .ok n ↔ value = some n ∧ 0 ≤ n ∧ n ≤ maximum := by
  cases value with
  | none => exact ⟨fun h => (by cases h), fun h => (by cases h.1)⟩
  | some value =>
      simp only [uint, bind_ok, failIf_ok, not_not, pure_ok, Option.some_inj]
      constructor
      · intro h
        obtain ⟨_, hfits, rfl⟩ := h
        exact ⟨rfl, hfits⟩
      · intro h
        obtain ⟨rfl, hfits⟩ := h
        exact ⟨(), hfits, rfl⟩

/-- The grid of a page. -/
structure Span where
  first : Int
  stop : Int
  samples : Int
  deriving DecidableEq, Repr

/-- The row of a producer; `none` is an absent field. -/
structure RawState where
  primitiveOrdinal : Option Int := none
  conreyNumber : Option Int := none
  parity : Option Int := none
  sampleCount : Option Int := none
  ambiguityRanges : Option (List AmbiguityRange) := none
  ambiguityCount : Option Int := none
  firstDeterminateNumerator : Option Int := none
  lastDeterminateNumerator : Option Int := none
  firstSign : Option Int := none
  lastSign : Option Int := none
  leadingAmbiguityCount : Option Int := none
  trailingAmbiguityCount : Option Int := none
  internalSignChangeCount : Option Int := none
  bracketCount : Option Int := none
  bracketRecords : Option (List DebugBracket) := none
  deriving DecidableEq, Repr

/-- A state as a row. -/
def CharacterState.raw (s : CharacterState) : RawState where
  primitiveOrdinal := some s.primitiveOrdinal
  conreyNumber := some s.conreyNumber
  parity := some s.parity
  sampleCount := some s.sampleCount
  ambiguityRanges := some s.ambiguityRanges
  ambiguityCount := some s.ambiguityCount
  firstDeterminateNumerator := s.firstDeterminateNumerator
  lastDeterminateNumerator := s.lastDeterminateNumerator
  firstSign := some s.firstSign
  lastSign := some s.lastSign
  leadingAmbiguityCount := some s.leadingAmbiguityCount
  trailingAmbiguityCount := some s.trailingAmbiguityCount
  internalSignChangeCount := some s.internalSignChangeCount
  bracketRecords := some s.bracketRecords

/-! ## Ranges -/

/-- `_normalize_range` -/
def normalizeRange (span : Span) (previousStop : Option Int) (range : AmbiguityRange) :
    Checked (AmbiguityRange × Int) := do
  let first ← uint "ambiguity range first" (some range.firstTNumerator)
  let stop ← uint "ambiguity range stop" (some range.stopTNumerator)
  failIf (¬ (span.first ≤ first ∧ first < stop ∧ stop ≤ span.stop)
      ∨ (first - span.first) % SOURCE_SAMPLE_NUMERATOR ≠ 0
      ∨ (stop - span.first) % SOURCE_SAMPLE_NUMERATOR ≠ 0
      ∨ ∃ previous ∈ previousStop, first ≤ previous)
    "v3 ambiguity ranges are not ordered maximal grid ranges"
  pure (⟨first, stop⟩, (stop - first) / SOURCE_SAMPLE_NUMERATOR)

/-- The loop over the ranges: the normalized ranges and their samples. -/
def normalizeRanges (span : Span) :
    Option Int → List AmbiguityRange → Checked (List AmbiguityRange × Int)
  | _, [] => pure ([], 0)
  | previousStop, raw :: rest => do
      let (range, count) ← normalizeRange span previousStop raw
      let (ranges, total) ← normalizeRanges span (some range.stopTNumerator) rest
      pure (range :: ranges, count + total)

/-- The samples of a list of ranges. -/
def rangeSamples (ranges : List AmbiguityRange) : Int :=
  (ranges.map fun range =>
    (range.stopTNumerator - range.firstTNumerator) / SOURCE_SAMPLE_NUMERATOR).sum

/-! ## Debug brackets -/

/-- The sample is in one of the ranges. -/
def isAmbiguous (ranges : List AmbiguityRange) (numerator : Int) : Bool :=
  ranges.any fun range => range.firstTNumerator ≤ numerator ∧ numerator < range.stopTNumerator

/-- `_normalize_debug_bracket` -/
def normalizeDebugBracket (span : Span) (ranges : List AmbiguityRange)
    (previous : Option DebugBracket) (bracket : DebugBracket) : Checked DebugBracket := do
  let lower ← uint "debug bracket lower" (some bracket.lowerTNumerator)
  let upper ← uint "debug bracket upper" (some bracket.upperTNumerator)
  let intervening ← uint "debug bracket ambiguity" (some bracket.interveningAmbiguityCount)
  failIf (bracket.lowerSign ∉ [-1, 1] ∨ bracket.upperSign ∉ [-1, 1]
      ∨ bracket.lowerSign = bracket.upperSign
      ∨ ¬ (span.first ≤ lower ∧ lower < upper ∧ upper < span.stop)
      ∨ (lower - span.first) % SOURCE_SAMPLE_NUMERATOR ≠ 0
      ∨ (upper - span.first) % SOURCE_SAMPLE_NUMERATOR ≠ 0
      ∨ intervening ≠ (upper - lower) / SOURCE_SAMPLE_NUMERATOR - 1
      ∨ (∃ before ∈ previous, lower < before.upperTNumerator)
      ∨ ∃ before ∈ previous, bracket.lowerSign ≠ before.upperSign)
    "v3 debug bracket order, signs, or grid differs"
  failIf (isAmbiguous ranges lower ∨ isAmbiguous ranges upper)
    "v3 debug bracket endpoint is ambiguous"
  failIf (intervening ≠ 0 ∧ ⟨lower + SOURCE_SAMPLE_NUMERATOR, upper⟩ ∉ ranges)
    "v3 debug bracket intervening ambiguity differs"
  pure ⟨lower, upper, bracket.lowerSign, bracket.upperSign, intervening⟩

/-- The loop over the brackets. -/
def normalizeBrackets (span : Span) (ranges : List AmbiguityRange) :
    Option DebugBracket → List DebugBracket → Checked (List DebugBracket)
  | _, [] => pure []
  | previous, raw :: rest => do
      let bracket ← normalizeDebugBracket span ranges previous raw
      let brackets ← normalizeBrackets span ranges (some bracket) rest
      pure (bracket :: brackets)

/-- The bracket rows of a state: none in production. -/
def stateBrackets (span : Span) (debug : Bool) (ranges : List AmbiguityRange)
    (firstSign lastSign transition : Int) (raw : List DebugBracket) : Checked (List DebugBracket) :=
  if debug then do
    let brackets ← normalizeBrackets span ranges none raw
    failIf (brackets.length ≠ transition) "v3 debug brackets do not realize the transition count"
    failIf (∃ bracket ∈ brackets.head?, bracket.lowerSign ≠ firstSign)
      "v3 debug bracket endpoint signs differ"
    failIf (∃ bracket ∈ brackets.getLast?, bracket.upperSign ≠ lastSign)
      "v3 debug bracket endpoint signs differ"
    pure brackets
  else pure []

/-! ## The whole state -/

/-- The first determinate sample, derived from the ranges. -/
def derivedFirst (span : Span) (ranges : List AmbiguityRange) : Option Int :=
  if rangeSamples ranges < span.samples then
    some (span.first + leadingCount span.first ranges * SOURCE_SAMPLE_NUMERATOR)
  else none

/-- The last determinate sample, derived from the ranges. -/
def derivedLast (span : Span) (ranges : List AmbiguityRange) : Option Int :=
  if rangeSamples ranges < span.samples then
    some (span.stop - (trailingCount span.stop ranges + 1) * SOURCE_SAMPLE_NUMERATOR)
  else none

/-- The signs at the two ends: of the two determinate ends, or none. -/
def checkSigns (span : Span) (ranges : List AmbiguityRange) (firstSign lastSign : Option Int) :
    Checked (Int × Int) := do
  if rangeSamples ranges < span.samples then
    failIf (firstSign ∉ [some (-1), some 1] ∨ lastSign ∉ [some (-1), some 1])
      "v3 determinate boundary signs differ"
  else
    failIf (firstSign ≠ some 0 ∨ lastSign ≠ some 0 ∨ ranges ≠ [⟨span.first, span.stop⟩])
      "v3 all-ambiguous character state differs"
  pure (firstSign.getD 0, lastSign.getD 0)

/-- The transition count: bounded by the determinate samples, and of the parity of the two signs. -/
def checkTransition (span : Span) (ranges : List AmbiguityRange) (firstSign lastSign transition : Int) :
    Checked Unit :=
  let determinate := span.samples - rangeSamples ranges
  failIf (transition > max 0 (determinate - 1)
      ∨ (determinate ≠ 0 ∧ transition % 2 ≠ if firstSign ≠ lastSign then 1 else 0)
      ∨ (determinate = 0 ∧ transition ≠ 0))
    "v3 transition count, parity, or determinate span differs"

/-- A field that may be absent and otherwise has the derived value. -/
def Agrees (field : Option Int) (derived : Int) : Prop := ∀ value ∈ field, value = derived

instance (field : Option Int) (derived : Int) : Decidable (Agrees field derived) :=
  inferInstanceAs (Decidable (∀ value ∈ field, value = derived))

/-- `_normalize_state` -/
def normalizeState (span : Span) (debug : Bool) (identity : Identity) (value : RawState) :
    Checked CharacterState := do
  let ordinal ← uint "primitive ordinal" value.primitiveOrdinal
  let conrey ← uint "Conrey number" value.conreyNumber
  failIf (ordinal ≠ identity.primitiveOrdinal ∨ conrey ≠ identity.conreyNumber
      ∨ value.parity ≠ some identity.parity)
    "v3 character identity differs from the canonical roster"
  failIf (value.sampleCount ≠ some span.samples) "v3 character sample coverage differs"
  failIf (value.ambiguityRanges = none) "v3 character ambiguity ranges are absent"
  let (ranges, ambiguityCount) ← normalizeRanges span none (value.ambiguityRanges.getD [])
  failIf (ambiguityCount > span.samples) "v3 character ambiguity total exceeds its grid"
  failIf (¬ Agrees value.ambiguityCount ambiguityCount)
    "v3 character ambiguity counter differs from maximal ranges"
  failIf (value.firstDeterminateNumerator ≠ derivedFirst span ranges
      ∨ value.lastDeterminateNumerator ≠ derivedLast span ranges
      ∨ ¬ Agrees value.leadingAmbiguityCount (leadingCount span.first ranges)
      ∨ ¬ Agrees value.trailingAmbiguityCount (trailingCount span.stop ranges))
    "v3 determinate ordinates are not derived from maximal ranges"
  let (firstSign, lastSign) ← checkSigns span ranges value.firstSign value.lastSign
  let transition ← uint "character transition count"
    (value.internalSignChangeCount.orElse fun _ => value.bracketCount)
  checkTransition span ranges firstSign lastSign transition
  let brackets ← stateBrackets span debug ranges firstSign lastSign transition
    (value.bracketRecords.getD [])
  pure
    { conreyNumber := conrey
      primitiveOrdinal := ordinal
      parity := identity.parity
      sampleCount := span.samples
      firstDeterminateNumerator := derivedFirst span ranges
      firstSign := firstSign
      lastDeterminateNumerator := derivedLast span ranges
      lastSign := lastSign
      leadingAmbiguityCount := leadingCount span.first ranges
      trailingAmbiguityCount := trailingCount span.stop ranges
      ambiguityCount := ambiguityCount
      internalSignChangeCount := transition
      ambiguityRanges := ranges
      bracketRecords := brackets }

/-! ## A normalized state is a fixed point -/

theorem normalizeRange_ok {span : Span} {previousStop : Option Int} {raw range : AmbiguityRange}
    {count : Int} (h : normalizeRange span previousStop raw = .ok (range, count)) :
    range = raw ∧
      count = (raw.stopTNumerator - raw.firstTNumerator) / SOURCE_SAMPLE_NUMERATOR := by
  simp only [normalizeRange, bind_ok, uint_ok, pure_ok, Prod.mk.injEq] at h
  obtain ⟨_, ⟨hfirst, _⟩, _, ⟨hstop, _⟩, _, _, rfl, rfl⟩ := h
  cases hfirst
  cases hstop
  exact ⟨rfl, rfl⟩

theorem normalizeRanges_ok {span : Span} {previousStop : Option Int}
    {raw ranges : List AmbiguityRange} {total : Int}
    (h : normalizeRanges span previousStop raw = .ok (ranges, total)) :
    ranges = raw ∧ total = rangeSamples raw := by
  induction raw generalizing previousStop ranges total with
  | nil =>
      cases h
      exact ⟨rfl, rfl⟩
  | cons range raw ih =>
      simp only [normalizeRanges, bind_ok, Prod.exists, pure_ok, Prod.mk.injEq] at h
      obtain ⟨_, _, hrange, _, _, hrest, rfl, rfl⟩ := h
      obtain ⟨rfl, rfl⟩ := normalizeRange_ok hrange
      obtain ⟨rfl, rfl⟩ := ih hrest
      exact ⟨rfl, rfl⟩

theorem normalizeDebugBracket_ok {span : Span} {ranges : List AmbiguityRange}
    {previous : Option DebugBracket} {raw bracket : DebugBracket}
    (h : normalizeDebugBracket span ranges previous raw = .ok bracket) : bracket = raw := by
  simp only [normalizeDebugBracket, bind_ok, uint_ok, pure_ok] at h
  obtain ⟨_, ⟨hlower, _⟩, _, ⟨hupper, _⟩, _, ⟨hcount, _⟩, _, _, _, _, _, _, rfl⟩ := h
  cases hlower
  cases hupper
  cases hcount
  rfl

theorem normalizeBrackets_ok {span : Span} {ranges : List AmbiguityRange}
    {previous : Option DebugBracket} {raw brackets : List DebugBracket}
    (h : normalizeBrackets span ranges previous raw = .ok brackets) : brackets = raw := by
  induction raw generalizing previous brackets with
  | nil =>
      cases h
      rfl
  | cons bracket raw ih =>
      simp only [normalizeBrackets, bind_ok, pure_ok] at h
      obtain ⟨_, hbracket, _, hrest, rfl⟩ := h
      rw [normalizeDebugBracket_ok hbracket, ih hrest]

theorem stateBrackets_ok {span : Span} {debug : Bool} {ranges : List AmbiguityRange}
    {firstSign lastSign transition : Int} {raw brackets : List DebugBracket}
    (h : stateBrackets span debug ranges firstSign lastSign transition raw = .ok brackets) :
    brackets = (if debug then raw else []) ∧
      stateBrackets span debug ranges firstSign lastSign transition brackets = .ok brackets := by
  cases debug with
  | false =>
      cases h
      exact ⟨rfl, rfl⟩
  | true =>
      have h' := h
      simp only [stateBrackets, if_true, bind_ok, pure_ok] at h'
      obtain ⟨_, hraw, _, _, _, _, _, _, rfl⟩ := h'
      obtain rfl := normalizeBrackets_ok hraw
      exact ⟨rfl, h⟩

theorem checkSigns_ok {span : Span} {ranges : List AmbiguityRange} {first last : Option Int}
    {firstSign lastSign : Int} :
    checkSigns span ranges first last = .ok (firstSign, lastSign) ↔
      first = some firstSign ∧ last = some lastSign ∧
        if rangeSamples ranges < span.samples then
          (firstSign = -1 ∨ firstSign = 1) ∧ (lastSign = -1 ∨ lastSign = 1)
        else firstSign = 0 ∧ lastSign = 0 ∧ ranges = [⟨span.first, span.stop⟩] := by
  unfold checkSigns
  by_cases hdeterminate : rangeSamples ranges < span.samples
  · simp only [if_pos hdeterminate, bind_ok, failIf_ok, pure_ok, Prod.mk.injEq, not_or, not_not]
    simp only [List.mem_cons, List.not_mem_nil, or_false]
    constructor
    · intro h
      obtain ⟨_, ⟨hfirst, hlast⟩, rfl, rfl⟩ := h
      rcases hfirst with rfl | rfl <;> rcases hlast with rfl | rfl <;> simp
    · intro h
      obtain ⟨rfl, rfl, hfirst, hlast⟩ := h
      exact ⟨(), ⟨hfirst.imp (congrArg some) (congrArg some),
        hlast.imp (congrArg some) (congrArg some)⟩, rfl, rfl⟩
  · simp only [if_neg hdeterminate, bind_ok, failIf_ok, pure_ok, Prod.mk.injEq, not_or, not_not]
    constructor
    · intro h
      obtain ⟨_, ⟨rfl, rfl, hranges⟩, rfl, rfl⟩ := h
      exact ⟨rfl, rfl, rfl, rfl, hranges⟩
    · intro h
      obtain ⟨rfl, rfl, rfl, rfl, hranges⟩ := h
      exact ⟨(), ⟨rfl, rfl, hranges⟩, rfl, rfl⟩

/-- What holds of a normalized state. -/
structure Normal (span : Span) (debug : Bool) (identity : Identity) (s : CharacterState) : Prop where
  ordinal : s.primitiveOrdinal = identity.primitiveOrdinal ∧ 0 ≤ s.primitiveOrdinal ∧
    s.primitiveOrdinal ≤ MAX_EVENT_COUNT
  conrey : s.conreyNumber = identity.conreyNumber ∧ 0 ≤ s.conreyNumber ∧
    s.conreyNumber ≤ MAX_EVENT_COUNT
  parity : s.parity = identity.parity
  samples : s.sampleCount = span.samples
  ranges : normalizeRanges span none s.ambiguityRanges = .ok (s.ambiguityRanges, s.ambiguityCount)
  count : s.ambiguityCount ≤ span.samples
  first : s.firstDeterminateNumerator = derivedFirst span s.ambiguityRanges
  last : s.lastDeterminateNumerator = derivedLast span s.ambiguityRanges
  leading : s.leadingAmbiguityCount = leadingCount span.first s.ambiguityRanges
  trailing : s.trailingAmbiguityCount = trailingCount span.stop s.ambiguityRanges
  signs : checkSigns span s.ambiguityRanges (some s.firstSign) (some s.lastSign) =
    .ok (s.firstSign, s.lastSign)
  transition : 0 ≤ s.internalSignChangeCount ∧ s.internalSignChangeCount ≤ MAX_EVENT_COUNT
  parityOfSigns : checkTransition span s.ambiguityRanges s.firstSign s.lastSign
    s.internalSignChangeCount = .ok ()
  brackets : stateBrackets span debug s.ambiguityRanges s.firstSign s.lastSign
    s.internalSignChangeCount s.bracketRecords = .ok s.bracketRecords

theorem normal_of_normalizeState {span : Span} {debug : Bool} {identity : Identity}
    {value : RawState} {s : CharacterState}
    (h : normalizeState span debug identity value = .ok s) : Normal span debug identity s := by
  simp only [normalizeState, bind_ok, failIf_ok, pure_ok, Prod.exists, uint_ok, not_or, not_not] at h
  obtain ⟨_, ⟨_, hordinal⟩, _, ⟨_, hconrey⟩, _, hidentity, _, _, _, _, ranges, _, hranges, _, hcount,
    _, _, _, hderived, _, _, hsigns, _, ⟨_, htransition⟩, _, hcheck, _, hbrackets, rfl⟩ := h
  obtain ⟨rfl, rfl⟩ := normalizeRanges_ok hranges
  obtain ⟨hfirst, hlast, _⟩ := checkSigns_ok.mp hsigns
  rw [hfirst, hlast] at hsigns
  exact
    { ordinal := ⟨hidentity.1, hordinal⟩
      conrey := ⟨hidentity.2.1, hconrey⟩
      parity := rfl
      samples := rfl
      ranges := hranges
      count := not_lt.mp hcount
      first := rfl
      last := rfl
      leading := rfl
      trailing := rfl
      signs := hsigns
      transition := htransition
      parityOfSigns := hcheck
      brackets := (stateBrackets_ok hbrackets).2 }

theorem agrees_some (n : Int) : Agrees (some n) n := by
  intro value h
  exact (Option.mem_some_iff.mp h).symm

/-- **Normalizing is idempotent.** -/
theorem Normal.normalizeState {span : Span} {debug : Bool} {identity : Identity}
    {s : CharacterState} (h : Normal span debug identity s) :
    normalizeState span debug identity s.raw = .ok s := by
  simp only [CompactV3.normalizeState, bind_ok, failIf_ok, pure_ok, Prod.exists, uint_ok, not_or,
    not_not]
  refine ⟨_, ⟨rfl, h.ordinal.2⟩, _, ⟨rfl, h.conrey.2⟩, (), ⟨h.ordinal.1, h.conrey.1,
    congrArg some h.parity⟩, (), congrArg some h.samples, (), Option.some_ne_none _, _, _, h.ranges,
    (), not_lt.mpr h.count, (), agrees_some _, (), ⟨h.first, h.last, ?_, ?_⟩, _, _, h.signs, _,
    ⟨rfl, h.transition⟩, (), h.parityOfSigns, _, h.brackets, ?_⟩
  · rw [← h.leading]
    exact agrees_some _
  · rw [← h.trailing]
    exact agrees_some _
  · rw [← h.parity, ← h.samples, ← h.first, ← h.last, ← h.leading, ← h.trailing]

/-- What normalizing a complete row returns is that row. -/
theorem eq_of_normalizeState {span : Span} {debug : Bool} {identity : Identity}
    {s s' : CharacterState} (h : normalizeState span debug identity s.raw = .ok s')
    (hproduction : debug = false → s.bracketRecords = []) : s' = s := by
  simp only [normalizeState, bind_ok, failIf_ok, pure_ok, Prod.exists, uint_ok, not_or, not_not] at h
  obtain ⟨_, ⟨hordinal, _⟩, _, ⟨hconrey, _⟩, _, ⟨_, _, hparity⟩, _, hsamples, _, _, ranges, _,
    hranges, _, _, _, hcount, _, ⟨hfirst, hlast, hleading, htrailing⟩, _, _, hsigns, _,
    ⟨htransition, _⟩, _, _, _, hbrackets, rfl⟩ := h
  obtain ⟨hranges, -⟩ := normalizeRanges_ok hranges
  have hranges' : ranges = s.ambiguityRanges := hranges
  subst hranges'
  obtain ⟨hfirstSign, hlastSign, _⟩ := checkSigns_ok.mp hsigns
  have hraw := (stateBrackets_ok hbrackets).1
  refine CharacterState.ext ?_ ?_ ?_ ?_ hfirst.symm ?_ hlast.symm ?_ ?_ ?_ ?_ ?_ rfl ?_
  · exact (Option.some.inj hconrey).symm
  · exact (Option.some.inj hordinal).symm
  · exact (Option.some.inj hparity).symm
  · exact (Option.some.inj hsamples).symm
  · exact (Option.some.inj hfirstSign).symm
  · exact (Option.some.inj hlastSign).symm
  · exact (hleading _ rfl).symm
  · exact (htrailing _ rfl).symm
  · exact (hcount _ rfl).symm
  · exact (Option.some.inj htransition).symm
  · cases debug with
    | false => rw [hraw, hproduction rfl]; rfl
    | true => exact hraw

end AttestedCompute.CompactV3
