import AttestedCompute.Dirichlet.MergeValid

/-!
# Combining chunks is scanning them together

What `combine_character_chunk_states` returns is the merge, on records of one character
that are next to each other and whose merge the validator accepts (`combine_ok_iff`). The
records of scans are such records: the scan of two chunks in a row is the combination of
their scans (`combine_scans`).
-/

namespace AttestedCompute.Dirichlet

open Fallible CharacterRecord

variable {a b c : CharacterRecord} {start stop : Int} {m n : List Bool}

/-- The records name one character. -/
def SameCharacter (a b : CharacterRecord) : Prop :=
  a.conreyNumber = b.conreyNumber ∧ a.primitiveOrdinal = b.primitiveOrdinal
    ∧ a.parity.val = b.parity.val

instance (a b : CharacterRecord) : Decidable (SameCharacter a b) :=
  inferInstanceAs (Decidable (_ ∧ _ ∧ _))

/-- A record without samples is anywhere. -/
theorem Valid.rebase (h : Valid a start []) (start' : Int) : Valid a start' [] :=
  { conrey := h.conrey
    ordinal := h.ordinal
    parity := h.parity
    shape := h.shape
    inGrid := fun hne => absurd rfl hne
    determinate := h.determinate
    positive := h.positive
    negative := h.negative
    bracketCount := h.bracketCount
    multiplicity := h.multiplicity
    noSigns := h.noSigns
    signs := h.signs
    oneSign := h.oneSign
    changes := by rw [h.noBrackets (by simp)]; trivial
    chain := fun hne => absurd (h.noBrackets (by simp)) hne
    positiveShown := h.positiveShown
    negativeShown := h.negativeShown }

theorem Valid.span_nil (h : Valid a start []) : a.span = .ok none := by
  have hsamples : a.sampleCount = 0 := h.sampleCount
  rw [CharacterRecord.span, if_pos hsamples]
  rfl

/-- Valid records, the second one starting where the first one ends. -/
structure InRow (a b : CharacterRecord) (start : Int) (m n : List Bool) : Prop where
  left : Valid a start m
  right : Valid b (after start m.length) n

/-- **The spans of valid records are next to each other exactly when the records are in a row.** -/
theorem inRow_iff : (a.validate = .ok () ∧ b.validate = .ok ()
      ∧ ∃ ends ends', a.span = .ok ends ∧ b.span = .ok ends' ∧ adjacent ends ends' = true)
    ↔ ∃ start m n, InRow a b start m n := by
  constructor
  · intro hall
    obtain ⟨ha, hb, ends, ends', hends, hends', hadjacent⟩ := hall
    obtain ⟨start, m, ha⟩ := validate_iff.mp ha
    obtain ⟨start', n, hb⟩ := validate_iff.mp hb
    by_cases hm : m = []
    · subst hm
      exact ⟨start', [], n, ha.rebase start', by rwa [List.length_nil, after_zero]⟩
    · by_cases hn : n = []
      · subst hn
        exact ⟨start, m, [], ha, hb.rebase _⟩
      · rw [ha.span hm] at hends
        rw [hb.span hn] at hends'
        cases hends
        cases hends'
        have heq : after start m.length = start' := by
          simpa [adjacent] using hadjacent
        exact ⟨start, m, n, ha, heq ▸ hb⟩
  · intro hall
    obtain ⟨start, m, n, ha, hb⟩ := hall
    refine ⟨ha.validate, hb.validate, ?_⟩
    by_cases hm : m = []
    · subst hm
      by_cases hn : n = []
      · subst hn
        exact ⟨_, _, ha.span_nil, hb.span_nil, rfl⟩
      · exact ⟨_, _, ha.span_nil, hb.span hn, rfl⟩
    · by_cases hn : n = []
      · subst hn
        exact ⟨_, _, ha.span hm, hb.span_nil, rfl⟩
      · exact ⟨_, _, ha.span hm, hb.span hn, by simp [adjacent]⟩

/-- **What combining returns.** -/
theorem combine_ok_iff : combine a b = .ok c
    ↔ SameCharacter a b ∧ (∃ start m n, InRow a b start m n)
      ∧ ((merge a b).bracketRecords ≠ [] → Coherent a ∧ Coherent b) ∧ merge a b = c := by
  simp only [combine, bind_ok, pure_ok, failIf_ok, exists_const, not_or, Decidable.not_not,
    Bool.not_eq_false, ne_eq]
  constructor
  · intro hall
    obtain ⟨_, ha, _, hb, hsame, ends, hends, ends', hends', hadjacent, _, _, _, _, _, hvalid, hc⟩ := hall
    obtain ⟨start, m, n, hrow⟩ := inRow_iff.mp ⟨ha, hb, ends, ends', hends, hends', hadjacent⟩
    exact ⟨hsame, ⟨start, m, n, hrow⟩, (validate_merge_iff hrow.left hrow.right).mp hvalid, hc⟩
  · intro hall
    obtain ⟨hsame, ⟨start, m, n, hrow⟩, hcoherent, hc⟩ := hall
    obtain ⟨ha, hb, ends, ends', hends, hends', hadjacent⟩ := inRow_iff.mpr ⟨start, m, n, hrow⟩
    have hmerge := hrow.left.merge hrow.right hcoherent
    obtain ⟨hsmall, hpartition, _⟩ := checkCounters_ok.mp hmerge.checkCounters
    -- the counters of a valid record are in range
    have hle : ∀ count ∈ (merge a b).counters, ¬ count > MAX_EVENT_COUNT :=
      fun count hmem => not_lt.mpr (isUint64_iff.mp (hsmall count hmem)).2
    have hcross : ¬ (crosses a b = true
        ∧ a.trailingAmbiguityCount + b.leadingAmbiguityCount > MAX_EVENT_COUNT) := by
      intro hall
      obtain ⟨_, hover⟩ := hall
      have hlength := hmerge.length_le
      have htrail := (plot_ends_le start m).2.2
      have hlead := (plot_ends_le (after start m.length) n).1.2
      have hcount := List.count_le_length (a := false) (l := m)
      have hcount' := List.count_le_length (a := false) (l := n)
      rw [← hrow.left.trailing] at htrail
      rw [← hrow.right.leading] at hlead
      rw [List.length_append] at hlength
      omega
    refine ⟨(), ha, (), hb, hsame, ends, hends, ends', hends', hadjacent, ?_, ?_, ?_, hcross,
      (), hmerge.validate, hc⟩
    · exact ⟨hle _ (by simp [counters]), hle _ (by simp [counters]), hle _ (by simp [counters]),
        hle _ (by simp [counters]), hle _ (by simp [counters])⟩
    · rw [hpartition, Int.add_assoc]
      rfl
    · exact ⟨hle _ (by simp [counters]), hle _ (by simp [counters])⟩

/-! ## Scans -/

/-- What `_integer` and the parity check ask of a name. -/
def CharacterIdentity.WellFormed (id : CharacterIdentity) : Prop :=
  0 ≤ id.conreyNumber ∧ 0 ≤ id.primitiveOrdinal ∧ (id.parity = 0 ∨ id.parity = 1)

variable {id : CharacterIdentity} {xs ys : List SignType}

theorem valid_empty (hid : id.WellFormed) (start : Int) : Valid (emptyRecord id) start [] := by
  obtain ⟨hconrey, hordinal, hparity⟩ := hid
  have hcount : ∀ kind, (emptyRecord id).shownCount kind = 0 := fun _ => rfl
  exact ⟨hconrey, hordinal, hparity, rfl, fun hne => absurd rfl hne, rfl, le_refl _, le_refl _,
    rfl, rfl, fun _ => ⟨rfl, rfl⟩, fun h => (by cases h), fun _ => rfl, trivial,
    fun hne => absurd rfl hne, by rw [hcount]; exact le_refl _, by rw [hcount]; exact le_refl _⟩

theorem shape_single (t : Int) (sign : SignType) :
    (single id t sign).shape = plot t (maskOf [sign]) := by
  rw [← scanOf_singleton, shape_scanOf]

theorem inGrid_single {t : Int} (hlow : 0 ≤ t)
    (hhigh : t ≤ MAX_EVENT_COUNT - SOURCE_SAMPLE_NUMERATOR) :
    0 ≤ t ∧ after t 1 ≤ MAX_EVENT_COUNT := by
  simp only [after, SOURCE_SAMPLE_NUMERATOR] at hhigh ⊢
  omega

theorem shownCount_one {e : Int × Int} (h : a.shown = [e, e]) (kind : Int → Bool) :
    a.shownCount kind = if kind e.2 then 1 else 0 := by
  have hset : a.shown.toFinset = {e} := by simp [h]
  rw [CharacterRecord.shownCount, hset, Finset.filter_singleton]
  split <;> rfl

/-- The record of one sample is valid. -/
theorem valid_single (hid : id.WellFormed) {t : Int} (hlow : 0 ≤ t)
    (hhigh : t ≤ MAX_EVENT_COUNT - SOURCE_SAMPLE_NUMERATOR) (sign : SignType) :
    Valid (single id t sign) t (maskOf [sign]) := by
  obtain ⟨hconrey, hordinal, hparity⟩ := hid
  have hgrid := inGrid_single hlow hhigh
  have hone : (0 : Int) ≤ 1 := Int.one_nonneg
  cases sign with
  | zero =>
      have hcount : ∀ kind, (single id t .zero).shownCount kind = 0 := fun _ => rfl
      exact ⟨hconrey, hordinal, hparity, shape_single t 0, fun _ => hgrid, rfl, le_refl _,
        le_refl _, rfl, rfl, fun _ => ⟨rfl, rfl⟩, fun h => (by cases h with | tail _ h => cases h),
        fun _ => rfl, trivial, fun hne => absurd rfl hne, by rw [hcount]; exact le_refl _,
        by rw [hcount]; exact le_refl _⟩
  | neg =>
      have hcount := shownCount_one (show (single id t .neg).shown = [(t, -1), (t, -1)] from rfl)
      exact ⟨hconrey, hordinal, hparity, shape_single t (-1), fun _ => hgrid, rfl, le_refl _,
        hone, rfl, rfl, fun h => absurd List.mem_cons_self h, fun _ => ⟨rfl, rfl⟩, fun _ => rfl,
        trivial, fun hne => absurd rfl hne, by rw [hcount]; exact le_refl _,
        by rw [hcount]; exact le_refl _⟩
  | pos =>
      have hcount := shownCount_one (show (single id t .pos).shown = [(t, 1), (t, 1)] from rfl)
      exact ⟨hconrey, hordinal, hparity, shape_single t 1, fun _ => hgrid, rfl, hone, le_refl _,
        rfl, rfl, fun h => absurd List.mem_cons_self h, fun _ => ⟨rfl, rfl⟩, fun _ => rfl,
        trivial, fun hne => absurd rfl hne, by rw [hcount]; exact le_refl _,
        by rw [hcount]; exact le_refl _⟩

theorem coherent_single (t : Int) (sign : SignType) : Coherent (single id t sign) := by
  intro _
  cases sign <;> rfl

/-- **The record of a scan is valid and coherent.** -/
theorem valid_scanOf (hid : id.WellFormed) {start : Int} (hgrid : InGrid start xs.length) :
    Valid (scanOf id start xs) start (maskOf xs) ∧ Coherent (scanOf id start xs) := by
  induction xs generalizing start with
  | nil => exact ⟨valid_empty hid start, fun _ => rfl⟩
  | cons x xs ih =>
      obtain ⟨hlow, hhigh⟩ := hgrid 0 (Nat.zero_lt_succ _)
      rw [after_zero] at hlow hhigh
      obtain ⟨hrest, hcoherent⟩ := ih hgrid.tail
      have hone := valid_single hid hlow hhigh x
      have hnext : start + SOURCE_SAMPLE_NUMERATOR = after start (maskOf [x]).length := by
        simp [after, maskOf]
      rw [hnext] at hrest hcoherent
      rw [scanOf, hnext]
      exact ⟨hone.merge hrest fun _ => ⟨coherent_single start x, hcoherent⟩,
        Coherent.merge hone hrest (coherent_single start x) hcoherent⟩

theorem InGrid.left {start : Int} {count more : Nat} (h : InGrid start (count + more)) :
    InGrid start count := fun i hi => h i (by omega)

theorem InGrid.right {start : Int} {count more : Nat} (h : InGrid start (count + more)) :
    InGrid (after start count) more := by
  intro i hi
  rw [after_after]
  exact h (count + i) (by omega)

theorem length_maskOf (xs : List SignType) : (maskOf xs).length = xs.length := List.length_map _

theorem WellKept.sameCharacter (ha : WellKept id a) (hb : WellKept id b) : SameCharacter a b :=
  ⟨ha.conrey.trans hb.conrey.symm, ha.ordinal.trans hb.ordinal.symm,
    congrArg PyInt.val (ha.parity.trans hb.parity.symm)⟩

theorem scanRecord_of_valid {start : Int} (hgrid : InGrid start xs.length)
    (hvalid : (scanOf id start xs).validate = .ok ()) :
    scanRecord id start xs = .ok (scanOf id start xs) :=
  (scanRecord_ok hgrid).mpr ⟨hvalid, rfl⟩

/-- **The monoid of chunks.** Scans of samples on the grid succeed, the validator accepts
their records, the combination of two scans in a row is the scan of both, and the empty scan
is neutral. -/
theorem combine_scans (hid : id.WellFormed) (start : Int) (xs ys : List SignType)
    (hgrid : InGrid start (xs ++ ys).length) :
    ∃ left right whole empty,
      scanRecord id start xs = .ok left ∧ left.validate = .ok ()
      ∧ scanRecord id (after start xs.length) ys = .ok right ∧ right.validate = .ok ()
      ∧ scanRecord id start (xs ++ ys) = .ok whole ∧ whole.validate = .ok ()
      ∧ combine left right = .ok whole
      ∧ (∀ anywhere, scanRecord id anywhere [] = .ok empty)
      ∧ combine empty whole = .ok whole ∧ combine whole empty = .ok whole := by
  have hgrids := hgrid
  rw [List.length_append] at hgrids
  obtain ⟨hleft, hcl⟩ := valid_scanOf hid hgrids.left
  obtain ⟨hright, hcr⟩ := valid_scanOf hid hgrids.right
  obtain ⟨hwhole, hcw⟩ := valid_scanOf hid hgrid
  have hempty := valid_empty hid
  have hkept : ∀ start xs, WellKept id (scanOf id start xs) := wellKept_scanOf
  have hnone : Coherent (emptyRecord id) := fun _ => rfl
  refine ⟨scanOf id start xs, scanOf id (after start xs.length) ys, scanOf id start (xs ++ ys),
    emptyRecord id, scanRecord_of_valid hgrids.left hleft.validate, hleft.validate,
    scanRecord_of_valid hgrids.right hright.validate, hright.validate,
    scanRecord_of_valid hgrid hwhole.validate, hwhole.validate, ?_, fun anywhere => ?_, ?_, ?_⟩
  · refine combine_ok_iff.mpr ⟨(hkept _ _).sameCharacter (hkept _ _),
      ⟨start, maskOf xs, maskOf ys, hleft, ?_⟩, fun _ => ⟨hcl, hcr⟩, (scanOf_append ..).symm⟩
    rw [length_maskOf]
    exact hright
  · exact scanRecord_of_valid (fun i hi => absurd hi (Nat.not_lt_zero i)) (hempty anywhere).validate
  · refine combine_ok_iff.mpr ⟨wellKept_empty.sameCharacter (hkept _ _),
      ⟨start, [], maskOf (xs ++ ys), hempty start, ?_⟩, fun _ => ⟨hnone, hcw⟩, merge_empty_left (hkept _ _)⟩
    rw [List.length_nil, after_zero]
    exact hwhole
  · exact combine_ok_iff.mpr ⟨(hkept _ _).sameCharacter wellKept_empty,
      ⟨start, _, [], hwhole, hempty _⟩, fun _ => ⟨hcw, hnone⟩, merge_empty_right (hkept _ _)⟩

/-- An ambiguity run and a sign change that both cross the cut. -/
theorem combine_scans_cut : ∃ left right whole empty,
    scanRecord ⟨2, 0, 1⟩ 0 [1, 0] = .ok left ∧ left.validate = .ok ()
    ∧ scanRecord ⟨2, 0, 1⟩ (after 0 2) [0, -1] = .ok right ∧ right.validate = .ok ()
    ∧ scanRecord ⟨2, 0, 1⟩ 0 [1, 0, 0, -1] = .ok whole ∧ whole.validate = .ok ()
    ∧ combine left right = .ok whole
    ∧ (∀ anywhere, scanRecord ⟨2, 0, 1⟩ anywhere [] = .ok empty)
    ∧ combine empty whole = .ok whole ∧ combine whole empty = .ok whole :=
  combine_scans ⟨by decide, by decide, .inr rfl⟩ 0 [1, 0] [0, -1] (by
    intro i hi
    simp only [after, MAX_EVENT_COUNT, SOURCE_SAMPLE_NUMERATOR]
    simp only [List.length_append, List.length_cons, List.length_nil] at hi
    omega)

end AttestedCompute.Dirichlet
