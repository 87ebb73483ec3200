import AttestedCompute.Dirichlet.ScanShape

/-!
# What the validator accepts

A record passes `_validate_character_chunk_record` exactly when some mask of its samples
has its shape, its brackets join determinate samples that follow each other, and the signs
of the brackets alternate (`Valid`, `validate_iff`). The signs at the ends of a record are
held together by its brackets only: a record without brackets may still begin and end with
different signs.
-/

namespace AttestedCompute.Dirichlet

open Fallible CharacterRecord

/-! ## Brackets over a mask -/

/-- The bracket goes from sample `j` to sample `k`, determinate ones that follow each other. -/
structure BracketRecord.Spans (start : Int) (mask : List Bool) (b : BracketRecord) (j k : Nat) :
    Prop where
  lower : b.lowerTNumerator = after start j
  upper : b.upperTNumerator = after start k
  lt : j < k
  lowerMark : mask[j]? = some true
  upperMark : mask[k]? = some true
  between : ∀ x, j < x → x < k → mask[x]? = some false
  intervening : b.interveningAmbiguityCount = k - (j + 1)

/-- The brackets come in order, from sample `i` on. -/
def SignChanges (start : Int) (mask : List Bool) : Nat → List BracketRecord → Prop
  | _, [] => True
  | i, b :: rest => ∃ j k, i ≤ j ∧ b.Spans start mask j k ∧ SignChanges start mask k rest

/-- The signs of the brackets lead from one sign to the other. -/
def SignChain : Int → List BracketRecord → Int → Prop
  | sign, [], last => sign = last
  | sign, b :: rest, last => b.lowerSign.val = sign ∧ isSign b.lowerSign = true
      ∧ isSign b.upperSign = true ∧ b.lowerSign.val ≠ b.upperSign.val
      ∧ SignChain b.upperSign.val rest last

/-- The endpoints of a bracket, each with its sign. -/
def BracketRecord.ends (b : BracketRecord) : List (Int × Int) :=
  [(b.lowerTNumerator, b.lowerSign.val), (b.upperTNumerator, b.upperSign.val)]

/-- The determinate ordinates that a record shows, each with its sign. -/
def CharacterRecord.shown (value : CharacterRecord) : List (Int × Int) :=
  (value.firstDeterminateNumerator.map fun first => (first, value.firstSign.val)).toList
    ++ (value.lastDeterminateNumerator.map fun last => (last, value.lastSign.val)).toList
    ++ value.bracketRecords.flatMap BracketRecord.ends

/-- How many different ordinates a record shows with a sign of the given kind. -/
def CharacterRecord.shownCount (value : CharacterRecord) (kind : Int → Bool) : Nat :=
  (value.shown.toFinset.filter fun e => kind e.2).card

/-- **What a valid record says about its samples.** -/
structure Valid (value : CharacterRecord) (start : Int) (mask : List Bool) : Prop where
  conrey : 0 ≤ value.conreyNumber
  ordinal : 0 ≤ value.primitiveOrdinal
  parity : value.parity.val = 0 ∨ value.parity.val = 1
  shape : value.shape = plot start mask
  inGrid : mask ≠ [] → 0 ≤ start ∧ after start mask.length ≤ MAX_EVENT_COUNT
  determinate : value.positiveCount + value.negativeCount = mask.count true
  positive : 0 ≤ value.positiveCount
  negative : 0 ≤ value.negativeCount
  bracketCount : value.bracketCount = value.bracketRecords.length
  multiplicity : value.multiplicityLowerBoundSum = value.bracketCount
  noSigns : true ∉ mask → value.firstSign.val = 0 ∧ value.lastSign.val = 0
  signs : true ∈ mask → isSign value.firstSign = true ∧ isSign value.lastSign = true
  /-- One determinate sample has one sign. -/
  oneSign : value.firstDeterminateNumerator = value.lastDeterminateNumerator →
    value.firstSign.val = value.lastSign.val
  changes : SignChanges start mask 0 value.bracketRecords
  chain : value.bracketRecords ≠ [] →
    SignChain value.firstSign.val value.bracketRecords value.lastSign.val
  positiveShown : (value.shownCount fun sign => sign > 0) ≤ value.positiveCount
  negativeShown : (value.shownCount fun sign => sign < 0) ≤ value.negativeCount

/-! ## The dictionary of endpoint signs -/

/-- The dictionary holds these entries, one for each key. -/
structure Recorded (signs entries : List (Int × Int)) : Prop where
  nodup : signs.Nodup
  mem : ∀ e, e ∈ signs ↔ e ∈ entries
  consistent : ∀ key sign sign', (key, sign) ∈ signs → (key, sign') ∈ signs → sign = sign'

variable {signs entries : List (Int × Int)} {key sign : Int} {message : String}

theorem Recorded.lookup_eq_some (h : Recorded signs entries) :
    lookup signs key = some sign ↔ (key, sign) ∈ entries := by
  rw [← h.mem]
  unfold lookup
  constructor
  · intro hlookup
    obtain ⟨front, back, rfl, -⟩ := List.lookup_eq_some_iff.mp hlookup
    simp
  · intro hmem
    cases hlookup : signs.lookup key with
    | none => simpa using List.lookup_eq_none_iff.mp hlookup _ hmem
    | some known =>
        obtain ⟨front, back, rfl, -⟩ := List.lookup_eq_some_iff.mp hlookup
        rw [h.consistent key sign known hmem (by simp)]

theorem recordSign_ok (h : Recorded signs entries) {signs' : List (Int × Int)} :
    recordSign signs key sign message = .ok signs'
      ↔ (∀ known, (key, known) ∈ entries → known = sign) ∧ assign signs key sign = signs' := by
  simp only [recordSign, bind_ok, failIf_ok, pure_ok, exists_const, Option.mem_def,
    h.lookup_eq_some, not_exists, not_and, not_not]

theorem mem_assign {e : Int × Int} :
    e ∈ assign signs key sign ↔ e = (key, sign) ∨ e ∈ signs ∧ e.1 ≠ key := by
  simp [assign]

theorem Recorded.assign (h : Recorded signs entries)
    (hsign : ∀ known, (key, known) ∈ entries → known = sign) :
    Recorded (assign signs key sign) (entries ++ [(key, sign)]) := by
  refine ⟨?_, fun e => ?_, fun k s s' hs hs' => ?_⟩
  · refine List.nodup_cons.mpr ⟨fun hmem => ?_, h.nodup.filter _⟩
    simp at hmem
  · rw [mem_assign, h.mem, List.mem_append, List.mem_singleton]
    by_cases hkey : e.1 = key
    · constructor
      · intro he
        rcases he with he | ⟨_, hne⟩
        · exact .inr he
        · exact absurd hkey hne
      · intro he
        refine .inl ?_
        rcases he with he | he
        · rw [← hkey] at hsign ⊢
          rw [← hsign e.2 he]
        · exact he
    · constructor
      · intro he
        rcases he with he | ⟨he, _⟩
        · exact .inr he
        · exact .inl he
      · intro he
        rcases he with he | he
        · exact .inr ⟨he, hkey⟩
        · exact .inl he
  · rw [mem_assign] at hs hs'
    rcases hs with hs | ⟨hs, hne⟩
    · rcases hs' with hs' | ⟨_, hne'⟩
      · exact (Prod.mk.inj hs).2.trans (Prod.mk.inj hs').2.symm
      · exact absurd (Prod.mk.inj hs).1 hne'
    · rcases hs' with hs' | ⟨hs', _⟩
      · exact absurd (Prod.mk.inj hs').1 hne
      · exact h.consistent k s s' hs hs'

/-- How many entries a dictionary has of a kind. -/
theorem Recorded.countP (h : Recorded signs entries) (kind : Int → Bool) :
    signs.countP (fun e => kind e.2) = (entries.toFinset.filter fun e => kind e.2).card := by
  have hset : (signs.filter fun e => kind e.2).toFinset
      = entries.toFinset.filter fun e => kind e.2 := by
    ext e
    simp [h.mem]
  rw [List.countP_eq_length_filter, ← hset, List.toFinset_card_of_nodup (h.nodup.filter _)]

/-! ## One bracket -/

section

variable {start : Int} {mask : List Bool} {b : BracketRecord}

theorem not_exists_mem {α : Type} {o : Option α} {P : α → Prop} :
    ¬ (∃ x ∈ o, P x) ↔ ∀ x ∈ o, ¬ P x := by simp only [not_exists, not_and]

theorem onGrid_iff {t : Int} : onGrid start t = true ↔ (t - start) % 5 = 0 := decide_eq_true_iff

/-- A point of the grid of the span. -/
theorem exists_index {n : Nat} {t : Int} (hlow : start ≤ t) (hgrid : onGrid start t = true)
    (hhigh : t < after start n) : ∃ i < n, t = after start i := by
  rw [onGrid_iff] at hgrid
  simp only [after, SOURCE_SAMPLE_NUMERATOR] at hhigh ⊢
  exact ⟨((t - start) / 5).toNat, by omega, by omega⟩

theorem onGrid_after (start : Int) (i : Nat) : onGrid start (after start i) = true := by
  rw [onGrid_iff]
  simp only [after, SOURCE_SAMPLE_NUMERATOR]
  omega

theorem onGrid_after_after (start : Int) (i j : Nat) :
    onGrid (after start i) (after start j) = true := by
  rw [onGrid_iff]
  simp only [after, SOURCE_SAMPLE_NUMERATOR]
  omega

/-- The checks on one bracket by itself. -/
theorem checkBracket_ok {n : Nat} {previous : Option (Int × Int)} (hstart : 0 ≤ start)
    (hstop : after start n ≤ MAX_EVENT_COUNT) :
    checkBracket start (after start n) previous b = .ok ()
      ↔ (isSign b.lowerSign = true ∧ isSign b.upperSign = true
          ∧ b.lowerSign.val ≠ b.upperSign.val)
        ∧ (∀ upper ∈ previous, upper.1 ≤ b.lowerTNumerator ∧ b.lowerSign.val = upper.2)
        ∧ ∃ j k, j < k ∧ k < n ∧ b.lowerTNumerator = after start j
          ∧ b.upperTNumerator = after start k ∧ b.interveningAmbiguityCount = k - (j + 1) := by
  simp only [checkBracket, bind_ok, failIf_ok, exists_const, not_not, not_or, not_exists_mem,
    Bool.not_eq_false]
  constructor
  · intro hall
    obtain ⟨hpointL, hpointU, ⟨hsl, hsu, hne, _⟩, hbelow, _, hiv, hprev, hsign⟩ := hall
    obtain ⟨hlow, hlt, hgrid⟩ := hpointL
    obtain ⟨hlow', hlt', hgrid'⟩ := hpointU
    obtain ⟨j, hj, hlower⟩ := exists_index hlow hgrid hlt
    obtain ⟨k, hk, hupper⟩ := exists_index hlow' hgrid' hlt'
    rw [hlower, hupper, ge_iff_le, not_le, after_lt] at hbelow
    refine ⟨⟨hsl, hsu, hne⟩, fun upper h => ⟨by have := hprev upper h; omega, hsign upper h⟩,
      j, k, hbelow, hk, hlower, hupper, ?_⟩
    rw [hiv, hlower, hupper]
    simp only [after, SOURCE_SAMPLE_NUMERATOR]
    omega
  · intro hall
    obtain ⟨⟨hsl, hsu, hne⟩, hprev, j, k, hjk, hk, hlower, hupper, hiv⟩ := hall
    have hle : ∀ i, start ≤ after start i := by
      intro i
      simp only [after, SOURCE_SAMPLE_NUMERATOR]
      omega
    have hsmall : isUint64 b.interveningAmbiguityCount = true := by
      simp only [after, SOURCE_SAMPLE_NUMERATOR] at hstop
      simp only [isUint64, hiv, Bool.and_eq_true, decide_eq_true_eq]
      omega
    rw [hlower, hupper]
    refine ⟨⟨hle j, after_lt.mpr (by omega), onGrid_after start j⟩,
      ⟨hle k, after_lt.mpr hk, onGrid_after start k⟩, ⟨hsl, hsu, hne, hsmall⟩, ?_, ?_, ?_, ?_, ?_⟩
    · exact not_le.mpr (after_lt.mpr hjk)
    · exact onGrid_after_after start j k
    · rw [hiv]
      simp only [after, SOURCE_SAMPLE_NUMERATOR]
      omega
    · intro upper h
      rw [← hlower]
      exact not_lt.mpr (hprev upper h).1
    · intro upper h
      exact (hprev upper h).2

theorem drop_of_getElem? {i : Nat} {d : Bool} (h : mask[i]? = some d) :
    mask.drop i = d :: mask.drop (i + 1) := by
  obtain ⟨hi, rfl⟩ := List.getElem?_eq_some_iff.mp h
  exact List.drop_eq_getElem_cons hi

/-- A mask around two determinate samples that follow each other. -/
theorem BracketRecord.Spans.split {j k : Nat} (h : b.Spans start mask j k) :
    mask = mask.take j
      ++ true :: (List.replicate (k - (j + 1)) false ++ true :: mask.drop (k + 1)) := by
  have hbetween : (mask.drop (j + 1)).take (k - (j + 1)) = List.replicate (k - (j + 1)) false := by
    refine List.ext_getElem? fun x => ?_
    rw [List.getElem?_take, List.getElem?_drop, List.getElem?_replicate]
    split
    · exact h.between _ (by omega) (by omega)
    · rfl
  have hlt := h.lt
  have hrest : (mask.drop (j + 1)).drop (k - (j + 1)) = true :: mask.drop (k + 1) := by
    rw [List.drop_drop, show j + 1 + (k - (j + 1)) = k by omega, drop_of_getElem? h.upperMark]
  rw [← hbetween, ← hrest, List.take_append_drop, ← drop_of_getElem? h.lowerMark,
    List.take_append_drop]

variable {value : CharacterRecord}

theorem inRange_iff (hranges : value.ambiguityRanges = (plot start mask).ambiguityRanges)
    (i : Nat) : value.inRange (after start i) = true ↔ mask[i]? = some false := by
  rw [← (maximalRuns_plot start mask).covers, ← hranges, inRange, List.any_eq_true]
  simp only [Bool.and_eq_true, decide_eq_true_eq]

/-- The check of the samples between the ends of a bracket. -/
theorem checkBetween_ok (hranges : value.ambiguityRanges = (plot start mask).ambiguityRanges)
    {j k : Nat} (hjk : j < k) (hlower : b.lowerTNumerator = after start j)
    (hupper : b.upperTNumerator = after start k)
    (hiv : b.interveningAmbiguityCount = k - (j + 1)) (hj : mask[j]? = some true)
    (hk : mask[k]? = some true) :
    checkBetween value b = .ok () ↔ ∀ x, j < x → x < k → mask[x]? = some false := by
  have hnext : b.lowerTNumerator + SOURCE_SAMPLE_NUMERATOR = after start (j + 1) := by
    rw [hlower]
    simp only [after, SOURCE_SAMPLE_NUMERATOR]
    omega
  unfold checkBetween
  by_cases hadjacent : k = j + 1
  · rw [if_neg (by omega), failIf_ok, hnext, hupper, hadjacent]
    exact iff_of_true (fun h => h rfl) fun x hx hx' => by omega
  · rw [if_pos (by omega), failIf_ok, not_not, hnext, hupper, hranges]
    constructor
    · intro hmem x hx hx'
      rw [← (maximalRuns_plot start mask).covers]
      exact ⟨_, hmem, after_le.mpr hx, after_lt.mpr hx'⟩
    · intro hbetween
      have hspan : b.Spans start mask j k := ⟨hlower, hupper, hjk, hj, hk, hbetween, hiv⟩
      have hlength : (mask.take j).length = j := by
        have := (List.getElem?_eq_some_iff.mp hj).1
        rw [List.length_take]
        omega
      have hmem := mem_plot_ranges start (mask.take j) (mask.drop (k + 1)) (k - (j + 2))
      rw [show k - (j + 2) + 1 = k - (j + 1) by omega, ← hspan.split, hlength,
        show j + (k - (j + 1)) + 1 = k by omega] at hmem
      exact hmem

theorem recordEndpoint_ok {signs entries signs' : List (Int × Int)} {endpoint sign : Int}
    (h : Recorded signs entries) : recordEndpoint value signs endpoint sign = .ok signs'
      ↔ value.inRange endpoint = false ∧ (∀ known, (endpoint, known) ∈ entries → known = sign)
        ∧ assign signs endpoint sign = signs' := by
  simp only [recordEndpoint, bind_ok, failIf_ok, exists_const, recordSign_ok h, Bool.not_eq_true]

/-- A sample outside the ranges is determinate. -/
theorem mark_of_inRange (hranges : value.ambiguityRanges = (plot start mask).ambiguityRanges)
    {i : Nat} (hi : i < mask.length) (h : value.inRange (after start i) = false) :
    mask[i]? = some true := by
  cases hmark : mask[i]? with
  | none => exact absurd (List.getElem?_eq_none_iff.mp hmark) (not_le.mpr hi)
  | some d =>
      cases d with
      | true => rfl
      | false => rw [(inRange_iff hranges i).mpr hmark] at h; cases h

/-! ## The loop over the brackets -/

theorem signChanges_mono {i i' : Nat} (h : i ≤ i') {brackets : List BracketRecord}
    (hchanges : SignChanges start mask i' brackets) : SignChanges start mask i brackets := by
  cases brackets with
  | nil => trivial
  | cons b rest =>
      obtain ⟨j, k, hij, hrest⟩ := hchanges
      exact ⟨j, k, by omega, hrest⟩

/-- What the loop over the brackets has found out. -/
theorem changes_of_checkBrackets (hstart : 0 ≤ start)
    (hstop : after start mask.length ≤ MAX_EVENT_COUNT)
    (hranges : value.ambiguityRanges = (plot start mask).ambiguityRanges)
    {brackets : List BracketRecord} {i : Nat} {sign : Int} {previous : Option (Int × Int)}
    {signs signs' entries : List (Int × Int)} (hrecorded : Recorded signs entries)
    (hprevious : previous = none ∧ i = 0 ∧ sign = value.firstSign.val
      ∨ previous = some (after start i, sign))
    (h : checkBrackets value start (after start mask.length) previous signs brackets = .ok signs') :
    SignChanges start mask i brackets ∧ (∃ last, SignChain sign brackets last)
      ∧ Recorded signs' (entries ++ brackets.flatMap BracketRecord.ends) := by
  induction brackets generalizing i sign previous signs entries with
  | nil =>
      rw [checkBrackets, pure_ok] at h
      subst h
      exact ⟨trivial, ⟨sign, rfl⟩, by simpa using hrecorded⟩
  | cons b rest ih =>
      rw [checkBrackets] at h
      simp only [bind_ok, failIf_ok, exists_const] at h
      obtain ⟨_, hbracket, signs₁, hlower, signs₂, hupper, _, hbetween, hfirst, hrest⟩ := h
      obtain ⟨⟨hsl, hsu, hne⟩, hprev, j, k, hjk, hk, hl, hu, hiv⟩ :=
        (checkBracket_ok hstart hstop).mp hbracket
      obtain ⟨hdetl, hagreel, rfl⟩ := (recordEndpoint_ok hrecorded).mp hlower
      have hrecorded₁ := hrecorded.assign hagreel
      obtain ⟨hdetu, hagreeu, rfl⟩ := (recordEndpoint_ok hrecorded₁).mp hupper
      rw [hl] at hdetl
      rw [hu] at hdetu
      have hmarkl := mark_of_inRange hranges (by omega) hdetl
      have hmarku := mark_of_inRange hranges hk hdetu
      have hsign : b.lowerSign.val = sign ∧ i ≤ j := by
        rcases hprevious with ⟨hnone, rfl, rfl⟩ | hsome
        · exact ⟨Decidable.not_not.mp fun hne => hfirst ⟨hnone, hne⟩, Nat.zero_le j⟩
        · obtain ⟨hle, hsign⟩ := hprev _ hsome
          rw [hl] at hle
          exact ⟨hsign, after_le.mp hle⟩
      obtain ⟨hchanges, ⟨last, hchain⟩, hrec⟩ := ih (hrecorded₁.assign hagreeu)
        (.inr (by rw [hu])) hrest
      refine ⟨⟨j, k, hsign.2, ⟨hl, hu, hjk, hmarkl, hmarku, ?_, hiv⟩, hchanges⟩,
        ⟨last, hsign.1, hsl, hsu, hne, hchain⟩, ?_⟩
      · exact (checkBetween_ok hranges hjk hl hu hiv hmarkl hmarku).mp hbetween
      · simpa [BracketRecord.ends] using hrec

/-- No ordinate has two signs. -/
def Consistent (entries : List (Int × Int)) : Prop :=
  ∀ key sign sign', (key, sign) ∈ entries → (key, sign') ∈ entries → sign = sign'

/-- **The loop accepts every chain of brackets over the mask.** -/
theorem checkBrackets_of_changes (hstart : 0 ≤ start)
    (hstop : after start mask.length ≤ MAX_EVENT_COUNT)
    (hranges : value.ambiguityRanges = (plot start mask).ambiguityRanges)
    {brackets : List BracketRecord} {i : Nat} {sign last : Int} {previous : Option (Int × Int)}
    {signs entries : List (Int × Int)} (hrecorded : Recorded signs entries)
    (hprevious : previous = none ∧ sign = value.firstSign.val
      ∨ previous = some (after start i, sign))
    (hchanges : SignChanges start mask i brackets) (hchain : SignChain sign brackets last)
    (hconsistent : Consistent (entries ++ brackets.flatMap BracketRecord.ends)) :
    ∃ signs', checkBrackets value start (after start mask.length) previous signs brackets
        = .ok signs'
      ∧ Recorded signs' (entries ++ brackets.flatMap BracketRecord.ends) := by
  induction brackets generalizing i sign previous signs entries with
  | nil => exact ⟨signs, rfl, by simpa using hrecorded⟩
  | cons b rest ih =>
      obtain ⟨j, k, hij, hspans, hchanges⟩ := hchanges
      obtain ⟨hsign, hsl, hsu, hne, hchain⟩ := hchain
      have hk := (List.getElem?_eq_some_iff.mp hspans.upperMark).1
      have hbracket : checkBracket start (after start mask.length) previous b = .ok () := by
        refine (checkBracket_ok hstart hstop).mpr ⟨⟨hsl, hsu, hne⟩, fun upper hupper => ?_,
          j, k, hspans.lt, hk, hspans.lower, hspans.upper, hspans.intervening⟩
        rcases hprevious with ⟨hnone, _⟩ | hsome
        · rw [hnone] at hupper
          cases hupper
        · rw [hsome, Option.mem_some_iff] at hupper
          rw [← hupper, hspans.lower]
          exact ⟨after_le.mpr hij, hsign⟩
      have hdet : ∀ x, mask[x]? = some true → value.inRange (after start x) = false := by
        intro x hx
        rw [← Bool.not_eq_true, inRange_iff hranges, hx]
        simp
      have hends : entries ++ (b :: rest).flatMap BracketRecord.ends
          = entries ++ [(b.lowerTNumerator, b.lowerSign.val)]
            ++ [(b.upperTNumerator, b.upperSign.val)] ++ rest.flatMap BracketRecord.ends := by
        simp [BracketRecord.ends]
      rw [hends] at hconsistent ⊢
      have hagreel : ∀ known, (b.lowerTNumerator, known) ∈ entries → known = b.lowerSign.val :=
        fun known hknown => hconsistent b.lowerTNumerator _ _ (by simp [hknown]) (by simp)
      have hrecorded₁ := hrecorded.assign hagreel
      have hagreeu : ∀ known, (b.upperTNumerator, known)
          ∈ entries ++ [(b.lowerTNumerator, b.lowerSign.val)] → known = b.upperSign.val :=
        fun known hknown => hconsistent b.upperTNumerator _ _
          (List.mem_append_left _ (List.mem_append_left _ hknown)) (by simp)
      obtain ⟨signs', hrest, hrec⟩ := ih (hrecorded₁.assign hagreeu)
        (.inr (congrArg (fun upper => some (upper, b.upperSign.val)) hspans.upper)) hchanges hchain hconsistent
      refine ⟨signs', ?_, hrec⟩
      rw [checkBrackets]
      simp only [bind_ok, failIf_ok, exists_const]
      refine ⟨(), hbracket, _, (recordEndpoint_ok hrecorded).mpr ⟨?_, hagreel, rfl⟩, _,
        (recordEndpoint_ok hrecorded₁).mpr ⟨?_, hagreeu, rfl⟩, (), ?_, ?_, hrest⟩
      · rw [hspans.lower]
        exact hdet j hspans.lowerMark
      · rw [hspans.upper]
        exact hdet k hspans.upperMark
      · exact (checkBetween_ok hranges hspans.lt hspans.lower hspans.upper hspans.intervening
          hspans.lowerMark hspans.upperMark).mpr hspans.between
      · intro hall
        obtain ⟨hnone, hfirst⟩ := hall
        rcases hprevious with ⟨_, heq⟩ | hsome
        · exact hfirst (hsign.trans heq)
        · rw [hnone] at hsome
          cases hsome

end

end AttestedCompute.Dirichlet
