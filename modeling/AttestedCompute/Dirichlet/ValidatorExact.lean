import AttestedCompute.Dirichlet.ValidatorLoops

/-!
# The validator decides validity

With its loops understood, the validator is taken apart check by check, and put together
again: it accepts a record exactly when some mask makes the record `Valid`.
-/

namespace AttestedCompute.Dirichlet

open Fallible CharacterRecord

variable {value : CharacterRecord} {start : Int} {mask : List Bool}

/-! ## The checks apart from the loops -/

theorem isUint64_iff {count : Int} : isUint64 count = true ↔ 0 ≤ count ∧ count ≤ MAX_EVENT_COUNT := by
  simp [isUint64]

theorem checkIdentity_ok : checkIdentity value = .ok ()
    ↔ 0 ≤ value.conreyNumber ∧ 0 ≤ value.primitiveOrdinal
      ∧ (value.parity.val = 0 ∨ value.parity.val = 1) := by
  simp only [checkIdentity, bind_ok, failIf_ok, exists_const, not_not, not_lt]

theorem checkCounters_ok : checkCounters value = .ok ()
    ↔ (∀ count ∈ value.counters, isUint64 count = true)
      ∧ value.sampleCount = value.ambiguityCount + value.determinate
      ∧ value.multiplicityLowerBoundSum = value.bracketCount
      ∧ value.leadingAmbiguityCount ≤ value.ambiguityCount
      ∧ value.trailingAmbiguityCount ≤ value.ambiguityCount
      ∧ value.bracketCount ≤ max 0 (value.determinate - 1)
      ∧ (value.ambiguityRanges.length : Int) ≤ value.ambiguityCount
      ∧ (value.bracketRecords.length : Int) = value.bracketCount := by
  simp only [checkCounters, bind_ok, failIf_ok, exists_const, not_not, not_or, not_lt,
    Bool.not_eq_false, List.all_eq_true, gt_iff_lt, ne_eq]
  simp only [and_assoc]

theorem checkBoundary_ok : checkBoundary value = .ok ()
    ↔ (value.firstDeterminateNumerator = none ∧ value.lastDeterminateNumerator = none
        ∧ value.firstSign.val = 0 ∧ value.lastSign.val = 0 ∧ value.determinate = 0
        ∧ value.bracketCount = 0 ∧ value.leadingAmbiguityCount = value.ambiguityCount
        ∧ value.trailingAmbiguityCount = value.ambiguityCount)
      ∨ ∃ first last, value.firstDeterminateNumerator = some first
        ∧ value.lastDeterminateNumerator = some last ∧ first ≤ last
        ∧ isSign value.firstSign = true ∧ isSign value.lastSign = true ∧ value.determinate ≠ 0 := by
  unfold checkBoundary
  cases hfirst : value.firstDeterminateNumerator with
  | none => simp [failIf_ok]
  | some first =>
      cases hlast : value.lastDeterminateNumerator with
      | none => simp [failIf_ok]
      | some last => simp [failIf_ok]

theorem checkEmpty_ok : checkEmpty value = .ok ()
    ↔ value.firstDeterminateNumerator = none ∧ value.lastDeterminateNumerator = none
      ∧ value.ambiguityCount = 0 ∧ value.determinate = 0 ∧ value.ambiguityRanges = []
      ∧ value.bracketRecords = [] := by
  simp only [checkEmpty, failIf_ok, not_or, not_not, ne_eq]

/-- A record without determinate samples is one range. -/
theorem span_of_none (hsamples : value.sampleCount ≠ 0)
    (hfirst : value.firstDeterminateNumerator = none) {ends : Option (Int × Int)} :
    value.span = .ok ends ↔ ∃ first stop, value.ambiguityRanges = [⟨first, stop⟩]
      ∧ ends = some (first, stop) := by
  rw [CharacterRecord.span, if_neg hsamples, hfirst]
  constructor
  · intro h
    cases hranges : value.ambiguityRanges with
    | nil => rw [hranges] at h; cases h
    | cons range rest =>
        rw [hranges] at h
        cases rest with
        | nil => exact ⟨_, _, rfl, (Except.ok.inj h).symm⟩
        | cons range' rest => cases h
  · intro hall
    obtain ⟨first, stop, hranges, hends⟩ := hall
    rw [hranges, hends]
    rfl

theorem span_of_some (hsamples : value.sampleCount ≠ 0) {front back : Int}
    (hfirst : value.firstDeterminateNumerator = some front)
    (hlast : value.lastDeterminateNumerator = some back) {ends : Option (Int × Int)} :
    value.span = .ok ends
      ↔ 0 ≤ front - value.leadingAmbiguityCount * SOURCE_SAMPLE_NUMERATOR
        ∧ back + (value.trailingAmbiguityCount + 1) * SOURCE_SAMPLE_NUMERATOR ≤ MAX_EVENT_COUNT
        ∧ ends = some (front - value.leadingAmbiguityCount * SOURCE_SAMPLE_NUMERATOR,
          back + (value.trailingAmbiguityCount + 1) * SOURCE_SAMPLE_NUMERATOR) := by
  rw [CharacterRecord.span, if_neg hsamples, hfirst, hlast]
  simp only [bind_ok, failIf_ok, pure_ok, exists_const, not_or]
  constructor
  · intro hall
    obtain ⟨⟨hlow, hhigh⟩, h⟩ := hall
    exact ⟨by omega, by omega, h.symm⟩
  · intro hall
    obtain ⟨hlow, hhigh, h⟩ := hall
    exact ⟨⟨by omega, by omega⟩, h.symm⟩

/-- The determinate ends of a record, with their signs. -/
def boundary (value : CharacterRecord) : List (Int × Int) :=
  (value.firstDeterminateNumerator.map fun first => (first, value.firstSign.val)).toList
    ++ (value.lastDeterminateNumerator.map fun last => (last, value.lastSign.val)).toList

theorem recorded_nil : Recorded [] [] :=
  ⟨List.nodup_nil, fun _ => Iff.rfl, fun _ _ _ h => by cases h⟩

theorem boundarySigns_none (hfirst : value.firstDeterminateNumerator = none)
    (hlast : value.lastDeterminateNumerator = none) :
    boundarySigns value = .ok [] ∧ Recorded [] (boundary value) := by
  rw [boundarySigns, boundary, hfirst, hlast]
  exact ⟨rfl, recorded_nil⟩

theorem boundarySigns_some {first last : Int}
    (hfirst : value.firstDeterminateNumerator = some first)
    (hlast : value.lastDeterminateNumerator = some last) {signs : List (Int × Int)} :
    boundarySigns value = .ok signs
      ↔ (first = last → value.firstSign.val = value.lastSign.val)
        ∧ assign (assign [] first value.firstSign.val) last value.lastSign.val = signs := by
  have hrecorded : Recorded (assign [] first value.firstSign.val) [(first, value.firstSign.val)] :=
    recorded_nil.assign fun _ h => by cases h
  rw [boundarySigns, hfirst, hlast]
  show recordSign _ _ _ _ = _ ↔ _
  rw [recordSign_ok hrecorded]
  refine and_congr_left fun _ => ?_
  constructor
  · intro h heq
    exact h _ (by rw [heq]; simp)
  · intro h known hknown
    rw [List.mem_singleton, Prod.mk.injEq] at hknown
    rw [hknown.2, h hknown.1.symm]

theorem recorded_boundary {first last : Int}
    (hfirst : value.firstDeterminateNumerator = some first)
    (hlast : value.lastDeterminateNumerator = some last)
    (hone : first = last → value.firstSign.val = value.lastSign.val) :
    Recorded (assign (assign [] first value.firstSign.val) last value.lastSign.val)
      (boundary value) := by
  have hrecorded : Recorded (assign [] first value.firstSign.val) [(first, value.firstSign.val)] :=
    recorded_nil.assign fun _ h => by cases h
  rw [boundary, hfirst, hlast]
  refine hrecorded.assign fun known hknown => ?_
  rw [List.mem_singleton, Prod.mk.injEq] at hknown
  rw [hknown.2, hone hknown.1.symm]

theorem checkSamples_ok {first stop : Int} : checkSamples value first stop = .ok ()
    ↔ (stop - first = value.sampleCount * SOURCE_SAMPLE_NUMERATOR ∧ stop ≤ MAX_EVENT_COUNT)
      ∧ checkRanges value first stop none 0 value.ambiguityRanges = .ok value.ambiguityCount
      ∧ checkLeading value first = .ok () ∧ checkTrailing value stop = .ok ()
      ∧ ∃ signs, boundarySigns value = .ok signs
      ∧ ∃ signs', checkBrackets value first stop none signs value.bracketRecords = .ok signs'
        ∧ (∀ b ∈ value.bracketRecords.getLast?, b.upperSign.val = value.lastSign.val)
        ∧ (signs'.countP fun e => e.2 > 0 : Int) ≤ value.positiveCount
        ∧ (signs'.countP fun e => e.2 < 0 : Int) ≤ value.negativeCount := by
  simp only [checkSamples, bind_ok, failIf_ok, exists_const, not_or, not_not, ne_eq, not_lt,
    gt_iff_lt, not_exists_mem]
  constructor
  · intro hall
    obtain ⟨hspan, total, hranges, htotal, _, hleading, _, htrailing, signs, hsigns, signs',
      hbrackets, hlast, hcount⟩ := hall
    exact ⟨hspan, htotal ▸ hranges, hleading, htrailing, signs, hsigns, signs', hbrackets, hlast,
      hcount⟩
  · intro hall
    obtain ⟨hspan, hranges, hleading, htrailing, signs, hsigns, signs', hbrackets, hlast, hcount⟩ := hall
    exact ⟨hspan, _, hranges, rfl, (), hleading, (), htrailing, signs, hsigns, signs', hbrackets,
      hlast, hcount⟩

theorem validate_cases : value.validate = .ok ()
    ↔ checkIdentity value = .ok () ∧ checkCounters value = .ok () ∧ checkBoundary value = .ok ()
      ∧ (value.sampleCount = 0 ∧ checkEmpty value = .ok ()
        ∨ value.sampleCount ≠ 0 ∧ ∃ first stop, value.span = .ok (some (first, stop))
          ∧ checkSamples value first stop = .ok ()) := by
  have hspan : value.sampleCount = 0 → value.span = .ok none := fun h => by
    rw [CharacterRecord.span, if_pos h]
    rfl
  have hspan' : value.sampleCount ≠ 0 → value.span ≠ .ok none := by
    intro h hnone
    cases hfirst : value.firstDeterminateNumerator with
    | none =>
        obtain ⟨_, _, _, hends⟩ := (span_of_none h hfirst).mp hnone
        cases hends
    | some front =>
        cases hlast : value.lastDeterminateNumerator with
        | none => rw [CharacterRecord.span, if_neg h, hfirst, hlast] at hnone; cases hnone
        | some back => cases ((span_of_some h hfirst hlast).mp hnone).2.2
  simp only [validate, bind_ok]
  constructor
  · intro hall
    obtain ⟨_, hidentity, _, hcounters, _, hboundary, ends, hends, hrest⟩ := hall
    refine ⟨hidentity, hcounters, hboundary, ?_⟩
    by_cases hzero : value.sampleCount = 0
    · rw [hspan hzero] at hends
      cases hends
      exact .inl ⟨hzero, hrest⟩
    · cases ends with
      | none => exact absurd hends (hspan' hzero)
      | some ends => exact .inr ⟨hzero, ends.1, ends.2, hends, hrest⟩
  · intro hall
    obtain ⟨hidentity, hcounters, hboundary, hrest⟩ := hall
    rcases hrest with ⟨hzero, hempty⟩ | ⟨_, first, stop, hends, hsamples⟩
    · exact ⟨(), hidentity, (), hcounters, (), hboundary, none, hspan hzero, hempty⟩
    · exact ⟨(), hidentity, (), hcounters, (), hboundary, _, hends, hsamples⟩

/-! ## From the checks to a mask -/

theorem signChain_last {brackets : List BracketRecord} {sign last : Int}
    (h : SignChain sign brackets last) : ∀ b ∈ brackets.getLast?, b.upperSign.val = last := by
  induction brackets generalizing sign with
  | nil => intro b hb; cases hb
  | cons b rest ih =>
      intro b' hb'
      cases rest with
      | nil =>
          rw [List.getLast?_singleton, Option.mem_some_iff] at hb'
          rw [← hb']
          exact h.2.2.2.2
      | cons b₁ rest => exact ih h.2.2.2.2 b' hb'

theorem count_true_add (mask : List Bool) :
    (mask.count true : Int) + mask.count false = mask.length := by
  rw [← List.count_true_add_count_false]
  push_cast
  rfl

/-- The shape of a record with these ranges and these ends. -/
theorem shape_of_checks (hlength : value.sampleCount = mask.length)
    (hranges : value.ambiguityRanges = (plot start mask).ambiguityRanges)
    (hambiguity : value.ambiguityCount = mask.count false) (hne : mask ≠ [])
    (hboundary : checkBoundary value = .ok ())
    (hdeterminate : value.determinate = mask.count true)
    (hspan : value.span = .ok (some (start, after start mask.length)))
    (hleading : checkLeading value start = .ok ())
    (htrailing : checkTrailing value (after start mask.length) = .ok ())
    (hleads : ∀ range ∈ value.ambiguityRanges.head?, Leads value start range) :
    value.shape = plot start mask := by
  have hsamples : value.sampleCount ≠ 0 := by
    rw [hlength]
    exact_mod_cast mt List.length_eq_zero_iff.mp hne
  rcases checkBoundary_ok.mp hboundary with
    ⟨hfirst, hlast, _, _, hzero, _, hlead, htrail⟩ | ⟨first, last, hfirst, hlast, _, _, _, hpos⟩
  · -- all samples are ambiguous
    have hmask : true ∉ mask := by
      rw [← List.count_eq_zero]
      omega
    have hcount : (mask.count false : Int) = mask.length := by
      have := count_true_add mask
      omega
    rw [hambiguity, hcount] at hlead htrail
    rw [plot_of_not_mem start hmask hne] at hranges ⊢
    exact Shape.ext hlength hfirst hlast hlead htrail (hambiguity.trans hcount) hranges
  · have hmask : true ∈ mask := by
      rw [← List.count_pos_iff]
      omega
    have hlead := (leading_iff hranges hmask).mp ⟨hleading, hleads⟩
    have htrail := (trailing_iff hranges hmask).mp htrailing
    obtain ⟨_, _, hends⟩ := (span_of_some hsamples hfirst hlast).mp hspan
    obtain ⟨hstartEq, hstopEq⟩ := Prod.mk.inj (Option.some.inj hends)
    obtain ⟨lo, hi, h⟩ := exists_maskEnds start hmask
    refine Shape.ext ?_ ?_ ?_ hlead htrail ?_ hranges
    · rw [plot_sampleCount]
      exact hlength
    · rw [h.first]
      show value.firstDeterminateNumerator = _
      rw [hfirst, Option.some.injEq]
      rw [hlead, h.leading] at hstartEq
      simp only [after]
      omega
    · rw [h.last]
      show value.lastDeterminateNumerator = _
      rw [hlast, Option.some.injEq]
      rw [htrail, h.trailing] at hstopEq
      simp only [after, SOURCE_SAMPLE_NUMERATOR] at hstopEq ⊢
      omega
    · rw [plot_ambiguityCount]
      exact hambiguity

/-- An accepted record without samples. -/
theorem valid_of_checkEmpty (hidentity : checkIdentity value = .ok ())
    (hcounters : checkCounters value = .ok ()) (hboundary : checkBoundary value = .ok ())
    (hzero : value.sampleCount = 0) (hempty : checkEmpty value = .ok ()) : Valid value 0 [] := by
  obtain ⟨hconrey, hordinal, hparity⟩ := checkIdentity_ok.mp hidentity
  obtain ⟨hsmall, _, hmultiplicity, _, _, _, _, hlength⟩ := checkCounters_ok.mp hcounters
  obtain ⟨hfirst, hlast, hambiguity, hdeterminate, hranges, hbrackets⟩ := checkEmpty_ok.mp hempty
  have hpositive := (isUint64_iff.mp (hsmall value.positiveCount (by simp [counters]))).1
  have hnegative := (isUint64_iff.mp (hsmall value.negativeCount (by simp [counters]))).1
  rcases checkBoundary_ok.mp hboundary with
    ⟨_, _, hsign, hsign', _, _, hlead, htrail⟩ | ⟨first, _, hsome, _⟩
  · rw [hambiguity] at hlead htrail
    have hshown : value.shown = [] := by simp [shown, hfirst, hlast, hbrackets]
    have hcount : ∀ kind, value.shownCount kind = 0 := fun kind => by simp [shownCount, hshown]
    exact
      { conrey := hconrey
        ordinal := hordinal
        parity := hparity
        shape := Shape.ext hzero hfirst hlast hlead htrail hambiguity hranges
        inGrid := fun h => absurd rfl h
        determinate := hdeterminate
        positive := hpositive
        negative := hnegative
        bracketCount := hlength.symm
        multiplicity := hmultiplicity
        noSigns := fun _ => ⟨hsign, hsign'⟩
        signs := fun h => by cases h
        oneSign := fun _ => hsign.trans hsign'.symm
        changes := by rw [hbrackets]; trivial
        chain := fun h => absurd hbrackets h
        positiveShown := by rw [hcount]; exact hpositive
        negativeShown := by rw [hcount]; exact hnegative }
  · rw [hfirst] at hsome
    cases hsome

/-- The entries on record once the signs at the ends are. -/
theorem boundarySigns_ok (hboundary : checkBoundary value = .ok ()) {signs : List (Int × Int)}
    (h : boundarySigns value = .ok signs) : Recorded signs (boundary value)
      ∧ (value.firstDeterminateNumerator = value.lastDeterminateNumerator →
        value.firstSign.val = value.lastSign.val) := by
  rcases checkBoundary_ok.mp hboundary with
    ⟨hfirst, hlast, hsign, hsign', _⟩ | ⟨first, last, hfirst, hlast, _⟩
  · obtain ⟨hok, hrecorded⟩ := boundarySigns_none hfirst hlast
    rw [hok] at h
    cases h
    exact ⟨hrecorded, fun _ => hsign.trans hsign'.symm⟩
  · obtain ⟨hone, rfl⟩ := (boundarySigns_some hfirst hlast).mp h
    refine ⟨recorded_boundary hfirst hlast hone, fun heq => hone ?_⟩
    rw [hfirst, hlast] at heq
    exact Option.some.inj heq

/-- The span of a record starts at an ordinate. -/
theorem span_nonneg {first stop : Int} (hsamples : value.sampleCount ≠ 0)
    (hboundary : checkBoundary value = .ok ())
    (hspan : value.span = .ok (some (first, stop)))
    (hranges : checkRanges value first stop none 0 value.ambiguityRanges
      = .ok value.ambiguityCount) : 0 ≤ first := by
  rcases checkBoundary_ok.mp hboundary with ⟨hfirst, _⟩ | ⟨front, back, hfirst, hlast, _⟩
  · obtain ⟨first', stop', heq, hends⟩ := (span_of_none hsamples hfirst).mp hspan
    cases hends
    rw [heq, checkRanges] at hranges
    simp only [bind_ok] at hranges
    obtain ⟨_, hrange, _⟩ := hranges
    exact (isUint64_iff.mp (checkRange_ok.mp hrange).1.1).1
  · obtain ⟨hlow, _, hends⟩ := (span_of_some hsamples hfirst hlast).mp hspan
    rw [(Prod.mk.inj (Option.some.inj hends)).1]
    exact hlow

/-- An accepted record with samples. -/
theorem valid_of_checkSamples {first stop : Int} (hidentity : checkIdentity value = .ok ())
    (hcounters : checkCounters value = .ok ()) (hboundary : checkBoundary value = .ok ())
    (hsamples : value.sampleCount ≠ 0) (hspan : value.span = .ok (some (first, stop)))
    (h : checkSamples value first stop = .ok ()) : ∃ mask, mask ≠ [] ∧ Valid value first mask := by
  obtain ⟨hconrey, hordinal, hparity⟩ := checkIdentity_ok.mp hidentity
  obtain ⟨hsmall, hpartition, hmultiplicity, _, _, _, _, hbrackets⟩ := checkCounters_ok.mp hcounters
  obtain ⟨⟨hwidth, hhigh⟩, hranges, hleading, htrailing, signs, hsigns, signs', hloop, hlast,
    hpositive, hnegative⟩ := checkSamples_ok.mp h
  have hcount : 0 ≤ value.sampleCount := (isUint64_iff.mp (hsmall _ (by simp [counters]))).1
  have hlow := span_nonneg hsamples hboundary hspan hranges
  obtain ⟨n, hn⟩ := Int.eq_ofNat_of_zero_le hcount
  obtain rfl : stop = after first n := by
    rw [hn] at hwidth
    simp only [after]
    omega
  -- the ranges give the mask
  rw [← after_zero first] at hranges
  obtain ⟨mask, hlength, hruns, htotal, _, hleads⟩ := maximalRuns_of_checkRanges (Nat.zero_le n)
    (.inl ⟨rfl, rfl⟩) (by rw [after_zero] at hranges; exact hranges)
  rw [after_zero] at hruns
  obtain rfl : n = mask.length := by omega
  have hne : mask ≠ [] := by
    intro hnil
    rw [hnil] at hn
    exact hsamples hn
  have hambiguity : value.ambiguityCount = mask.count false := by omega
  have hdeterminate : value.determinate = mask.count true := by
    have hsum := count_true_add mask
    omega
  have hshape := shape_of_checks hn hruns.plot_ranges.symm hambiguity hne hboundary hdeterminate
    hspan hleading htrailing (hleads rfl)
  -- the brackets run over the mask
  obtain ⟨hrecorded, hone⟩ := boundarySigns_ok hboundary hsigns
  obtain ⟨hchanges, ⟨last, hchain⟩, hrecorded'⟩ := changes_of_checkBrackets hlow hhigh
    hruns.plot_ranges.symm hrecorded (.inl ⟨rfl, rfl, rfl⟩) hloop
  have hshown : ∀ kind : Int → Bool, signs'.countP (fun e => kind e.2) = value.shownCount kind :=
    fun kind => hrecorded'.countP kind
  refine ⟨mask, hne, ⟨hconrey, hordinal, hparity, hshape, fun _ => ⟨hlow, hhigh⟩, hdeterminate,
    (isUint64_iff.mp (hsmall _ (by simp [counters]))).1,
    (isUint64_iff.mp (hsmall _ (by simp [counters]))).1, hbrackets.symm, hmultiplicity, ?_, ?_,
    hone, hchanges, fun hbracket => ?_, ?_, ?_⟩⟩
  · intro hmask
    rcases checkBoundary_ok.mp hboundary with ⟨_, _, hsign, hsign', _⟩ | ⟨_, _, _, _, _, _, _, hpos⟩
    · exact ⟨hsign, hsign'⟩
    · rw [hdeterminate, List.count_eq_zero.mpr hmask] at hpos
      exact absurd rfl hpos
  · intro hmask
    rcases checkBoundary_ok.mp hboundary with ⟨_, _, _, _, hzero, _⟩ | ⟨_, _, _, _, _, hs, hs', _⟩
    · have hpos := List.count_pos_iff.mpr hmask
      omega
    · exact ⟨hs, hs'⟩
  · -- the chain ends in the last sign
    obtain ⟨b, hb⟩ := Option.isSome_iff_exists.mp (List.getLast?_isSome.mpr hbracket)
    rw [← hlast b hb, signChain_last hchain b hb]
    exact hchain
  · rw [← hshown]
    exact hpositive
  · rw [← hshown]
    exact hnegative

/-! ## From a mask to the checks -/

namespace Valid

variable (h : Valid value start mask)

include h

theorem sampleCount : value.sampleCount = mask.length := by
  rw [← plot_sampleCount start mask, ← h.shape]
  rfl

theorem ambiguityCount : value.ambiguityCount = mask.count false := by
  rw [← plot_ambiguityCount start mask, ← h.shape]
  rfl

theorem ranges : value.ambiguityRanges = (plot start mask).ambiguityRanges :=
  congrArg Shape.ambiguityRanges h.shape

theorem leading : value.leadingAmbiguityCount = (plot start mask).leadingAmbiguityCount :=
  congrArg Shape.leadingAmbiguityCount h.shape

theorem trailing : value.trailingAmbiguityCount = (plot start mask).trailingAmbiguityCount :=
  congrArg Shape.trailingAmbiguityCount h.shape

theorem first : value.firstDeterminateNumerator = (plot start mask).firstDeterminateNumerator :=
  congrArg Shape.firstDeterminateNumerator h.shape

theorem last : value.lastDeterminateNumerator = (plot start mask).lastDeterminateNumerator :=
  congrArg Shape.lastDeterminateNumerator h.shape

theorem length_le : (mask.length : Int) ≤ MAX_EVENT_COUNT := by
  by_cases hne : mask = []
  · rw [hne]
    decide
  · obtain ⟨hlow, hhigh⟩ := h.inGrid hne
    simp only [after, SOURCE_SAMPLE_NUMERATOR] at hhigh
    omega

theorem checkIdentity : checkIdentity value = .ok () :=
  checkIdentity_ok.mpr ⟨h.conrey, h.ordinal, h.parity⟩

theorem brackets_le : (value.bracketRecords.length : Int) ≤ max 0 (value.determinate - 1) := by
  by_cases hne : value.bracketRecords = []
  · rw [hne]
    exact le_max_left _ _
  · have hcount := length_of_changes h.changes hne
    rw [List.drop_zero] at hcount
    have hdeterminate : value.determinate = mask.count true := h.determinate
    omega

theorem checkCounters : checkCounters value = .ok () := by
  obtain ⟨⟨hlead, hlead'⟩, htrail, htrail'⟩ := plot_ends_le start mask
  have hlength := h.length_le
  have hsamples := h.sampleCount
  have hambiguity := h.ambiguityCount
  have hbrackets := h.brackets_le
  have hsum := count_true_add mask
  have hdeterminate : value.determinate = mask.count true := h.determinate
  have hpositive := h.positive
  have hnegative := h.negative
  have hcount := h.bracketCount
  have hmultiplicity := h.multiplicity
  have hranges := (maximalRuns_plot start mask).length_le
  rw [← h.leading] at hlead hlead'
  rw [← h.trailing] at htrail htrail'
  rw [← h.ranges] at hranges
  have hpn : value.positiveCount + value.negativeCount = value.determinate := rfl
  refine checkCounters_ok.mpr ⟨fun count hmem => isUint64_iff.mpr ?_, by omega, hmultiplicity,
    by omega, by omega, by omega, by omega, hcount.symm⟩
  simp only [counters, List.mem_cons, List.not_mem_nil, or_false] at hmem
  rcases hmem with rfl | rfl | rfl | rfl | rfl | rfl | rfl | rfl <;> omega

theorem checkBoundary : checkBoundary value = .ok () := by
  refine checkBoundary_ok.mpr ?_
  have hdeterminate : value.determinate = mask.count true := h.determinate
  by_cases hmask : true ∈ mask
  · obtain ⟨lo, hi, hends⟩ := exists_maskEnds start hmask
    obtain ⟨hs, hs'⟩ := h.signs hmask
    have hpos := List.count_pos_iff.mpr hmask
    exact .inr ⟨_, _, h.first.trans hends.first, h.last.trans hends.last,
      after_le.mpr (hends.inside lo hends.lowMark).2, hs, hs', by omega⟩
  · obtain ⟨hs, hs'⟩ := h.noSigns hmask
    have hzero := List.count_eq_zero.mpr hmask
    have hbrackets := h.brackets_le
    have hcount := h.bracketCount
    have hambiguity := h.ambiguityCount
    have hfirst := h.first
    have hlast := h.last
    have hlead := h.leading
    have htrail := h.trailing
    by_cases hne : mask = []
    · subst hne
      exact .inl ⟨hfirst, hlast, hs, hs', by omega, by omega, hlead.trans hambiguity.symm,
        htrail.trans hambiguity.symm⟩
    · have hsum := count_true_add mask
      rw [plot_of_not_mem start hmask hne] at hfirst hlast hlead htrail
      refine .inl ⟨hfirst, hlast, hs, hs', by omega, by omega, hlead.trans ?_, htrail.trans ?_⟩
      · show (mask.length : Int) = value.ambiguityCount
        omega
      · show (mask.length : Int) = value.ambiguityCount
        omega

/-- The span that the record shows is the one of its mask. -/
theorem span (hne : mask ≠ []) :
    value.span = .ok (some (start, after start mask.length)) := by
  have hsamples : value.sampleCount ≠ 0 := by
    rw [h.sampleCount]
    exact_mod_cast mt List.length_eq_zero_iff.mp hne
  obtain ⟨hlow, hhigh⟩ := h.inGrid hne
  by_cases hmask : true ∈ mask
  · obtain ⟨lo, hi, hends⟩ := exists_maskEnds start hmask
    have hlt := hends.lt_length
    have hstart : after start lo - value.leadingAmbiguityCount * SOURCE_SAMPLE_NUMERATOR = start := by
      rw [h.leading, hends.leading]
      simp only [after]
      omega
    have hstop : after start hi + (value.trailingAmbiguityCount + 1) * SOURCE_SAMPLE_NUMERATOR
        = after start mask.length := by
      rw [h.trailing, hends.trailing]
      simp only [after, SOURCE_SAMPLE_NUMERATOR]
      omega
    refine (span_of_some hsamples (h.first.trans hends.first) (h.last.trans hends.last)).mpr ?_
    rw [hstart, hstop]
    exact ⟨hlow, hhigh, rfl⟩
  · have hfirst := h.first
    have hranges := h.ranges
    rw [plot_of_not_mem start hmask hne] at hfirst hranges
    exact (span_of_none hsamples hfirst).mpr ⟨_, _, hranges, rfl⟩

/-- **A valid record shows each ordinate with one sign.** -/
theorem consistent : Consistent value.shown := by
  by_cases hmask : true ∈ mask
  · obtain ⟨lo, hi, hends⟩ := exists_maskEnds start hmask
    have hfirst := h.first.trans hends.first
    have hlast := h.last.trans hends.last
    have hle := (hends.inside lo hends.lowMark).2
    have hshown : ∀ e, e ∈ value.shown → e ∈ (after start lo, value.firstSign.val)
        :: (value.bracketRecords.flatMap BracketRecord.ends ++ [(after start hi, value.lastSign.val)]) := by
      intro e he
      simp only [shown, hfirst, hlast, Option.map_some, Option.toList_some, List.mem_append,
        List.mem_cons, List.not_mem_nil, or_false] at he ⊢
      rcases he with (he | he) | he
      · exact .inl he
      · exact .inr (.inr he)
      · exact .inr (.inl he)
    have hchain : List.IsChain Ascends ((after start lo, value.firstSign.val)
        :: (value.bracketRecords.flatMap BracketRecord.ends
          ++ [(after start hi, value.lastSign.val)])) := by
      by_cases hne : value.bracketRecords = []
      · rw [hne]
        refine List.isChain_pair.mpr ?_
        rcases Nat.lt_or_eq_of_le hle with hlt | heq
        · exact .inl (after_lt.mpr hlt)
        · rw [heq, h.oneSign (by rw [hfirst, hlast, heq])]
          exact .inr rfl
      · exact ascends_of_changes h.changes (h.chain hne) (fun j _ => hends.inside j) hle
    intro key sign sign' hs hs'
    exact consistent_of_ascends hchain key sign sign' (hshown _ hs) (hshown _ hs')
  · have hbrackets := h.brackets_le
    have hzero := List.count_eq_zero.mpr hmask
    have hdeterminate : value.determinate = mask.count true := h.determinate
    have hnil : value.bracketRecords = [] := List.length_eq_zero_iff.mp (by omega)
    have hfirst : value.firstDeterminateNumerator = none := by
      rw [h.first, ← Option.not_isSome_iff_eq_none, plot_first_isSome]
      exact hmask
    have hlast : value.lastDeterminateNumerator = none := by
      rw [h.last, ← Option.not_isSome_iff_eq_none, plot_sameEnds, plot_first_isSome]
      exact hmask
    intro key sign sign' hs
    simp [shown, hfirst, hlast, hnil] at hs

/-- **Every check passes on a valid record.** -/
theorem checkSamples (hne : mask ≠ []) :
    checkSamples value start (after start mask.length) = .ok () := by
  obtain ⟨hlow, hhigh⟩ := h.inGrid hne
  have hwidth : after start mask.length - start = value.sampleCount * SOURCE_SAMPLE_NUMERATOR := by
    rw [h.sampleCount]
    simp only [after]
    omega
  -- the ends of the chunk
  have hends : checkLeading value start = .ok ()
      ∧ checkTrailing value (after start mask.length) = .ok ()
      ∧ ∀ range ∈ value.ambiguityRanges.head?, Leads value start range := by
    by_cases hmask : true ∈ mask
    · obtain ⟨hleading, hleads⟩ := (leading_iff h.ranges hmask).mpr h.leading
      exact ⟨hleading, (trailing_iff h.ranges hmask).mpr h.trailing, hleads⟩
    · have hranges := h.ranges
      have hlead := h.leading
      have htrail := h.trailing
      have hpos := List.length_pos_iff.mpr hne
      rw [plot_of_not_mem start hmask hne] at hranges hlead htrail
      simp only at hranges hlead htrail
      have hstop : after start mask.length - mask.length * SOURCE_SAMPLE_NUMERATOR = start := by
        simp only [after]
        omega
      refine ⟨?_, ?_, fun range hrange _ => ?_⟩
      · rw [checkLeading, if_neg (by omega), failIf_ok, hranges]
        exact List.cons_ne_nil _ _
      · rw [checkTrailing, if_neg (by omega), failIf_ok]
        intro hall
        rcases hall ⟨start, after start mask.length⟩ (by rw [hranges]; rfl) with hbad | hbad
        · exact hbad rfl
        · rw [htrail, hstop] at hbad
          exact hbad rfl
      · rw [hranges, List.head?_cons, Option.mem_some_iff] at hrange
        rw [← hrange, hlead]
        exact ⟨rfl, rfl⟩
  obtain ⟨hleading, htrailing, hleads⟩ := hends
  -- the ranges
  have hsum := count_true_add mask
  have hlength := h.length_le
  have hranges : checkRanges value start (after start mask.length) none 0 value.ambiguityRanges
      = .ok value.ambiguityCount := by
    have hrun : checkRanges value start (after start mask.length) none 0
        (plot start mask).ambiguityRanges = .ok (0 + mask.count false) :=
      checkRanges_of_maximalRuns (maximalRuns_plot start mask) hlow hhigh (after_zero start).symm
        (Nat.zero_add _) (fun _ hnone => by cases hnone) (fun _ => by rwa [← h.ranges]) (by omega)
    rwa [← h.ranges, Int.zero_add, ← h.ambiguityCount] at hrun
  -- the brackets
  obtain ⟨signs, hsigns, hrecorded⟩ : ∃ signs, boundarySigns value = .ok signs
      ∧ Recorded signs (boundary value) := by
    rcases checkBoundary_ok.mp h.checkBoundary with ⟨hfirst, hlast, _⟩ | ⟨first, last, hfirst, hlast, _⟩
    · exact ⟨[], boundarySigns_none hfirst hlast⟩
    · have hone : first = last → value.firstSign.val = value.lastSign.val :=
        fun heq => h.oneSign (by rw [hfirst, hlast, heq])
      exact ⟨_, (boundarySigns_some hfirst hlast).mpr ⟨hone, rfl⟩,
        recorded_boundary hfirst hlast hone⟩
  have hchain : ∃ last, SignChain value.firstSign.val value.bracketRecords last
      ∧ (value.bracketRecords ≠ [] → last = value.lastSign.val) := by
    by_cases hnil : value.bracketRecords = []
    · rw [hnil]
      exact ⟨_, rfl, fun hne => absurd rfl hne⟩
    · exact ⟨_, h.chain hnil, fun _ => rfl⟩
  obtain ⟨last, hchain, hend⟩ := hchain
  have hchanges : SignChanges start mask 0 value.bracketRecords := h.changes
  obtain ⟨signs', hloop, hrecorded'⟩ := checkBrackets_of_changes hlow hhigh h.ranges hrecorded
    (.inl ⟨rfl, rfl⟩) hchanges hchain h.consistent
  have hshown : ∀ kind : Int → Bool, signs'.countP (fun e => kind e.2) = value.shownCount kind :=
    fun kind => hrecorded'.countP kind
  refine checkSamples_ok.mpr ⟨⟨hwidth, hhigh⟩, hranges, hleading, htrailing, signs, hsigns, signs',
    hloop, fun b hb => ?_, ?_, ?_⟩
  · rw [signChain_last hchain b hb]
    exact hend (List.getLast?_isSome.mp (Option.isSome_of_mem hb))
  · rw [hshown fun sign => sign > 0]
    exact h.positiveShown
  · rw [hshown fun sign => sign < 0]
    exact h.negativeShown

theorem validate : value.validate = .ok () := by
  refine validate_cases.mpr ⟨h.checkIdentity, h.checkCounters, h.checkBoundary, ?_⟩
  by_cases hne : mask = []
  · subst hne
    refine .inl ⟨h.sampleCount, checkEmpty_ok.mpr ⟨h.first, h.last, h.ambiguityCount,
      h.determinate, h.ranges, ?_⟩⟩
    have hbrackets := h.brackets_le
    have hdeterminate : value.determinate = 0 := h.determinate
    exact List.length_eq_zero_iff.mp (by omega)
  · refine .inr ⟨?_, _, _, h.span hne, h.checkSamples hne⟩
    rw [h.sampleCount]
    exact_mod_cast mt List.length_eq_zero_iff.mp hne

end Valid

/-- **The validator accepts a record exactly when it is valid over some mask.** -/
theorem validate_iff : value.validate = .ok () ↔ ∃ start mask, Valid value start mask := by
  constructor
  · intro h
    obtain ⟨hidentity, hcounters, hboundary, hrest⟩ := validate_cases.mp h
    rcases hrest with ⟨hzero, hempty⟩ | ⟨hsamples, first, stop, hspan, hcheck⟩
    · exact ⟨0, [], valid_of_checkEmpty hidentity hcounters hboundary hzero hempty⟩
    · obtain ⟨mask, _, hvalid⟩ :=
        valid_of_checkSamples hidentity hcounters hboundary hsamples hspan hcheck
      exact ⟨first, mask, hvalid⟩
  · intro hall
    obtain ⟨start, mask, hvalid⟩ := hall
    exact hvalid.validate

end AttestedCompute.Dirichlet
