import AttestedCompute.Dirichlet.ChunkCombine

/-!
# Which accepted records come from a scan

A record leaves no choice for the samples: outside its ranges the sign of an ordinate is
the first sign, flipped once for every bracket that ends at or before it (`realize`). The
record of a scan gives its samples back, so an accepted record comes from a scan exactly when
the signs at its ends agree with its brackets and its positive samples are the ones that this
reading finds (`Determined`). The validator checks neither.
-/

namespace AttestedCompute.Dirichlet

open Fallible CharacterRecord

/-! ## Reading samples off a record -/

def BracketRecord.plain (b : BracketRecord) : BracketRecord :=
  { b with lowerSign := b.lowerSign.plain, upperSign := b.upperSign.plain }

/-- The record with its truth values as the integers they equal. Two records are equal in
Python when these are equal. -/
def CharacterRecord.plain (value : CharacterRecord) : CharacterRecord :=
  { value with
    parity := value.parity.plain
    firstSign := value.firstSign.plain
    lastSign := value.lastSign.plain
    bracketRecords := value.bracketRecords.map BracketRecord.plain }

/-- How many of the brackets end at or before the ordinate. -/
def endedBrackets (brackets : List BracketRecord) (t : Int) : Nat :=
  brackets.countP fun b => b.upperTNumerator ≤ t

/-- The first sign, flipped by the brackets up to the ordinate. -/
def CharacterRecord.forcedSign (value : CharacterRecord) (t : Int) : Int :=
  value.firstSign.val * (-1) ^ endedBrackets value.bracketRecords t

/-- The sample that the record forces on an ordinate. -/
def CharacterRecord.forced (value : CharacterRecord) (t : Int) : SignType :=
  if value.inRange t then 0 else if 0 < value.forcedSign t then 1 else -1

/-- The samples that the record forces on its span. -/
def CharacterRecord.realize (value : CharacterRecord) : List SignType :=
  match value.span with
  | .ok (some (first, _)) =>
      (List.range value.sampleCount.toNat).map fun i => value.forced (after first i)
  | _ => []

/-- **The record says of its signs what its brackets say.** -/
def Determined (value : CharacterRecord) : Prop :=
  Coherent value ∧ value.positiveCount = value.realize.count 1

/-- One sample for each ordinate of the span. -/
def OnSpan (value : CharacterRecord) (start : Int) (xs : List SignType) : Prop :=
  value.span = .ok (if xs = [] then none else some (start, after start xs.length))

variable {value : CharacterRecord} {id : CharacterIdentity} {start : Int} {mask : List Bool}

theorem realize_eq (h : Valid value start mask) : value.realize
    = (List.range mask.length).map fun i => value.forced (after start i) := by
  by_cases hne : mask = []
  · subst hne
    rw [realize, h.span_nil]
    rfl
  · rw [realize, h.span hne, h.sampleCount]
    rfl

theorem onSpan_iff (h : Valid value start mask) {start' : Int} {xs : List SignType} :
    OnSpan value start' xs ↔ xs.length = mask.length ∧ (xs ≠ [] → start' = start) := by
  unfold OnSpan
  by_cases hne : mask = []
  · subst hne
    rw [h.span_nil]
    by_cases hxs : xs = []
    · subst hxs
      simp
    · rw [if_neg hxs]
      simp [hxs]
  · rw [h.span hne]
    by_cases hxs : xs = []
    · subst hxs
      have hlength : (0 : Nat) ≠ mask.length := fun h => hne (List.length_eq_zero_iff.mp h.symm)
      simp [hlength]
    · rw [if_neg hxs]
      have hne' : xs ≠ [] := hxs
      simp only [Except.ok.injEq, Option.some.injEq, Prod.mk.injEq]
      constructor
      · intro hall
        obtain ⟨hstart, hstop⟩ := hall
        subst hstart
        exact ⟨(after_inj.mp hstop).symm, fun _ => rfl⟩
      · intro hall
        obtain ⟨hlength, hstart⟩ := hall
        rw [hstart hne', hlength]
        exact ⟨rfl, rfl⟩

/-! ## The record of a scan gives its samples back -/

theorem endedBrackets_append (bs cs : List BracketRecord) (t : Int) :
    endedBrackets (bs ++ cs) t = endedBrackets bs t + endedBrackets cs t := List.countP_append

/-- Brackets from a sample on end after it. -/
theorem endedBrackets_eq_zero {bs : List BracketRecord} {i k : Nat}
    (h : SignChanges start mask i bs) (hk : k ≤ i) : endedBrackets bs (after start k) = 0 := by
  induction bs generalizing i with
  | nil => rfl
  | cons b rest ih =>
      obtain ⟨j, k', hij, hspans, hchanges⟩ := h
      have hlt := hspans.lt
      rw [endedBrackets, List.countP_cons_of_neg]
      · exact ih hchanges (by omega)
      · rw [hspans.upper, decide_eq_true_eq, after_le]
        omega

theorem positiveCount_scanOf (start : Int) (xs : List SignType) :
    (scanOf id start xs).positiveCount = xs.count 1 := by
  induction xs generalizing start with
  | nil => rfl
  | cons x xs ih =>
      have hone : (single id start x).positiveCount = if x = 1 then 1 else 0 := by
        cases x <;> rfl
      show (single id start x).positiveCount + (scanOf id _ xs).positiveCount = _
      rw [hone, ih, List.count_cons]
      by_cases hx : x = 1
      · simp [hx, Int.add_comm]
      · simp [hx]

theorem isSign_iff {sign : PyInt} : isSign sign = true ↔ sign.val = -1 ∨ sign.val = 1 := by
  simp [isSign]

theorem maskOf_getElem? {xs : List SignType} {i : Nat} {x : SignType} (hx : xs[i]? = some x) :
    (maskOf xs)[i]? = some (decide (x ≠ 0)) := by
  rw [maskOf, List.getElem?_map, hx]
  rfl

/-- **The samples of a scan are the ones that its record forces.** -/
theorem forcedSign_scanOf (hid : id.WellFormed) {xs : List SignType}
    (hgrid : InGrid start xs.length) {i : Nat} {x : SignType} (hx : xs[i]? = some x) (hne : x ≠ 0) :
    (scanOf id start xs).forcedSign (after start i) = x := by
  induction xs generalizing start i with
  | nil => cases hx
  | cons y ys ih =>
      have hwhole := (valid_scanOf hid hgrid).1
      have hrest := (valid_scanOf hid hgrid.tail).1
      rw [scanOf] at hwhole ⊢
      by_cases hy : y = 0
      · -- an ambiguous sample in front changes neither the first sign nor the brackets
        subst hy
        have hsame : ∀ t, (merge (single id start 0)
            (scanOf id (start + SOURCE_SAMPLE_NUMERATOR) ys)).forcedSign t
            = (scanOf id (start + SOURCE_SAMPLE_NUMERATOR) ys).forcedSign t := fun t => rfl
        cases i with
        | zero => exact absurd (Option.some.inj hx).symm hne
        | succ i => rw [hsame, after_succ]; exact ih hgrid.tail hx
      · have hsingle : single id start y = { emptyRecord id with
            sampleCount := 1
            firstDeterminateNumerator := some start
            firstSign := .int y
            lastDeterminateNumerator := some start
            lastSign := .int y
            positiveCount := if y = 1 then 1 else 0
            negativeCount := if y = 1 then 0 else 1 } := if_neg hy
        have hfirst : (single id start y).firstDeterminateNumerator = some start := by rw [hsingle]
        have hsign : (single id start y).lastSign = .int y := by rw [hsingle]
        have hforced : ∀ t, (merge (single id start y)
            (scanOf id (start + SOURCE_SAMPLE_NUMERATOR) ys)).forcedSign t
            = y * (-1) ^ (endedBrackets (crossing (single id start y)
              (scanOf id (start + SOURCE_SAMPLE_NUMERATOR) ys)) t
              + endedBrackets (scanOf id (start + SOURCE_SAMPLE_NUMERATOR) ys).bracketRecords t) := by
          intro t
          rw [← endedBrackets_append, hsingle]
          rfl
        cases i with
        | zero =>
            have hzero := endedBrackets_eq_zero hwhole.changes (le_refl 0)
            rw [CharacterRecord.forcedSign, hzero, merge_firstSign, hsingle, pow_zero, mul_one]
            rw [← Option.some.inj hx]
            rfl
        | succ i =>
            have hx : ys[i]? = some x := hx
            have hvalue := ih hgrid.tail hx
            have hmark : (maskOf ys)[i]? = some true := by
              rw [maskOf_getElem? hx, decide_eq_true hne]
            have hmask := List.mem_of_getElem? hmark
            obtain ⟨lo, hi, hends⟩ := exists_maskEnds (start + SOURCE_SAMPLE_NUMERATOR) hmask
            have hnext := hrest.first.trans hends.first
            have hle := (hends.inside i hmark).1
            rw [hforced, after_succ, ← hvalue, CharacterRecord.forcedSign]
            by_cases hcross : crosses (single id start y)
                (scanOf id (start + SOURCE_SAMPLE_NUMERATOR) ys) = true
            · -- the bracket across the cut ends at the first determinate sample of the rest
              have hflip : (scanOf id (start + SOURCE_SAMPLE_NUMERATOR) ys).firstSign.val = -y := by
                have hother := isSign_iff.mp (hrest.signs hmask).1
                simp only [crosses, hfirst, hnext, hsign, Option.isSome_some, Bool.true_and,
                  decide_eq_true_eq, PyInt.val_int] at hcross
                revert hcross
                cases y with
                | zero => exact absurd rfl hy
                | neg => simp; omega
                | pos => simp; omega
              have hone : endedBrackets (crossing (single id start y)
                  (scanOf id (start + SOURCE_SAMPLE_NUMERATOR) ys))
                  (after (start + SOURCE_SAMPLE_NUMERATOR) i) = 1 := by
                rw [crossing, if_pos hcross, hnext]
                simp [endedBrackets, after_le, hle]
              rw [hone, hflip, pow_add]
              ring
            · have hsame : (y : Int)
                  = (scanOf id (start + SOURCE_SAMPLE_NUMERATOR) ys).firstSign.val := by
                simpa [crosses, hfirst, hnext, hsign] using hcross
              have hzero : endedBrackets (crossing (single id start y)
                  (scanOf id (start + SOURCE_SAMPLE_NUMERATOR) ys))
                  (after (start + SOURCE_SAMPLE_NUMERATOR) i) = 0 := by
                rw [crossing, if_neg hcross]
                rfl
              rw [hzero, hsame, Nat.zero_add]

theorem inRange_of_valid (h : Valid value start mask) {i : Nat} {d : Bool}
    (hd : mask[i]? = some d) : value.inRange (after start i) = !d := by
  have hiff := inRange_iff h.ranges i
  rw [hd] at hiff
  cases d with
  | true => exact Bool.eq_false_iff.mpr fun hin => by cases Option.some.inj (hiff.mp hin)
  | false => exact hiff.mpr rfl

theorem realize_getElem? (h : Valid value start mask) (i : Nat) :
    value.realize[i]? = if i < mask.length then some (value.forced (after start i)) else none := by
  rw [realize_eq h, List.getElem?_map]
  split
  · rename_i hi
    rw [List.getElem?_range hi]
    rfl
  · rename_i hi
    rw [List.getElem?_eq_none (by simpa using hi)]
    rfl

/-- **The record of a scan gives the samples back.** -/
theorem realize_scanOf (hid : id.WellFormed) {xs : List SignType}
    (hgrid : InGrid start xs.length) : (scanOf id start xs).realize = xs := by
  have hvalid := (valid_scanOf hid hgrid).1
  refine List.ext_getElem? fun i => ?_
  rw [realize_getElem? hvalid, length_maskOf]
  split
  · rename_i hi
    have hx := List.getElem?_eq_getElem hi
    have hin := inRange_of_valid hvalid (maskOf_getElem? hx)
    rw [hx, CharacterRecord.forced, hin, Option.some.injEq]
    by_cases hzero : xs[i] = 0
    · simp [hzero]
    · rw [forcedSign_scanOf hid hgrid hx hzero]
      revert hzero
      cases xs[i] <;> simp
  · rename_i hi
    exact (List.getElem?_eq_none (not_lt.mp hi)).symm

/-! ## Samples for a determined record -/

theorem pow_ne {a b : Nat} (ha : a = 0) (hb : b = 1) : (-1 : Int) ^ a ≠ (-1) ^ b := by
  subst ha hb
  decide

/-- The brackets before a sample are those that end before it. -/
theorem endedBrackets_cons {b : BracketRecord} {rest : List BracketRecord} {j k : Nat}
    (hspans : b.Spans start mask j k) (x : Nat) :
    endedBrackets (b :: rest) (after start x)
      = endedBrackets rest (after start x) + if k ≤ x then 1 else 0 := by
  rw [endedBrackets, List.countP_cons, hspans.upper]
  simp only [decide_eq_true_eq, after_le]
  rfl

theorem upper_of_lower {sign sign' : PyInt} (h : isSign sign = true) (h' : isSign sign' = true)
    (hne : sign.val ≠ sign'.val) : sign'.val = -sign.val := by
  have hs := isSign_iff.mp h
  have hs' := isSign_iff.mp h'
  omega

/-- **Brackets that flip the same samples are the same brackets.** -/
theorem brackets_unique {bs bs' : List BracketRecord} {i : Nat} {sign last last' : Int}
    (h : SignChanges start mask i bs) (h' : SignChanges start mask i bs')
    (hchain : SignChain sign bs last) (hchain' : SignChain sign bs' last')
    (hparity : ∀ k, i ≤ k → mask[k]? = some true → (-1 : Int) ^ endedBrackets bs (after start k)
      = (-1) ^ endedBrackets bs' (after start k)) :
    bs.map BracketRecord.plain = bs'.map BracketRecord.plain := by
  induction bs generalizing bs' i sign with
  | nil =>
      cases bs' with
      | nil => rfl
      | cons b' rest' =>
          obtain ⟨j', k', hij', hspans', hchanges'⟩ := h'
          have hlt' := hspans'.lt
          have hk := hparity k' (by omega) hspans'.upperMark
          rw [endedBrackets_cons hspans', endedBrackets_eq_zero hchanges' (le_refl k')] at hk
          exact absurd hk (pow_ne rfl (by simp))
  | cons b rest ih =>
      obtain ⟨j, k, hij, hspans, hchanges⟩ := h
      have hlt := hspans.lt
      have hzero := endedBrackets_eq_zero hchanges (le_refl k)
      cases bs' with
      | nil =>
          have hk := hparity k (by omega) hspans.upperMark
          rw [endedBrackets_cons hspans, hzero] at hk
          exact absurd hk.symm (pow_ne rfl (by simp))
      | cons b' rest' =>
          obtain ⟨j', k', hij', hspans', hchanges'⟩ := h'
          have hlt' := hspans'.lt
          have hzero' := endedBrackets_eq_zero hchanges' (le_refl k')
          -- the first flip is the same one
          have hkk : k = k' := by
            rcases Nat.lt_trichotomy k k' with hless | heq | hless
            · have hk := hparity k (by omega) hspans.upperMark
              rw [endedBrackets_cons hspans, hzero, endedBrackets_cons hspans',
                endedBrackets_eq_zero hchanges' hless.le] at hk
              exact absurd hk.symm (pow_ne (by simp; omega) (by simp))
            · exact heq
            · have hk := hparity k' (by omega) hspans'.upperMark
              rw [endedBrackets_cons hspans', hzero', endedBrackets_cons hspans,
                endedBrackets_eq_zero hchanges hless.le] at hk
              exact absurd hk (pow_ne (by simp; omega) (by simp))
          subst hkk
          have hjj : j = j' := by
            rcases Nat.lt_trichotomy j j' with hless | heq | hless
            · have hmark := hspans.between j' hless hlt'
              rw [hspans'.lowerMark] at hmark
              cases hmark
            · exact heq
            · have hmark := hspans'.between j hless hlt
              rw [hspans.lowerMark] at hmark
              cases hmark
          subst hjj
          obtain ⟨hsign, hs, hs', hne, hchain⟩ := hchain
          obtain ⟨hsign', hs₁, hs₁', hne', hchain'⟩ := hchain'
          have hupper : b.upperSign.val = b'.upperSign.val := by
            rw [upper_of_lower hs hs' hne, upper_of_lower hs₁ hs₁' hne', hsign, hsign']
          have hplain : b.plain = b'.plain := by
            simp only [BracketRecord.plain, BracketRecord.mk.injEq, PyInt.plain, PyInt.int.injEq]
            exact ⟨hspans.lower.trans hspans'.lower.symm, hspans.upper.trans hspans'.upper.symm,
              hsign.trans hsign'.symm, hupper, hspans.intervening.trans hspans'.intervening.symm⟩
          rw [← hupper] at hchain'
          have hrest := ih hchanges hchanges' hchain hchain' fun x hx hmark => by
            have hp := hparity x (by omega) hmark
            rw [endedBrackets_cons hspans, endedBrackets_cons hspans', if_pos hx, pow_succ,
              pow_succ] at hp
            omega
          rw [List.map_cons, List.map_cons, hplain, hrest]

theorem signChain_parity {bs : List BracketRecord} {sign last : Int}
    (h : SignChain sign bs last) : last = sign * (-1) ^ bs.length := by
  induction bs generalizing sign with
  | nil => rw [List.length_nil, pow_zero, mul_one]; exact (show sign = last from h).symm
  | cons b rest ih =>
      obtain ⟨hsign, hs, hs', hne, hchain⟩ := h
      rw [ih hchain, upper_of_lower hs hs' hne, hsign, List.length_cons, pow_succ]
      ring

/-- The forced sign of a determinate sample is a sign. -/
theorem forced_of_mark (h : Valid value start mask) {i : Nat} (hmark : mask[i]? = some true) :
    value.forced (after start i) ≠ 0
      ∧ (value.forced (after start i) : Int) = value.forcedSign (after start i) := by
  have hs := isSign_iff.mp (h.signs (List.mem_of_getElem? hmark)).1
  have hforced : value.forcedSign (after start i) = 1 ∨ value.forcedSign (after start i) = -1 := by
    rw [CharacterRecord.forcedSign]
    rcases neg_one_pow_eq_or ℤ (endedBrackets value.bracketRecords (after start i)) with hp | hp <;>
      rcases hs with hs | hs <;> rw [hp, hs] <;> simp
  rw [CharacterRecord.forced, inRange_of_valid h hmark]
  rcases hforced with hp | hp <;> rw [hp] <;> simp

/-- The forced samples lie where the determinate samples are. -/
theorem maskOf_realize (h : Valid value start mask) : maskOf value.realize = mask := by
  refine List.ext_getElem? fun i => ?_
  rw [maskOf, List.getElem?_map, realize_getElem? h]
  split
  · rename_i hi
    have hmark := List.getElem?_eq_getElem hi
    rw [hmark, Option.map_some, Option.some.injEq]
    cases hd : mask[i] with
    | true => rw [hd] at hmark; exact decide_eq_true (forced_of_mark h hmark).1
    | false =>
        rw [hd] at hmark
        rw [CharacterRecord.forced, inRange_of_valid h hmark]
        rfl
  · rename_i hi
    exact (List.getElem?_eq_none (not_lt.mp hi)).symm

def CharacterRecord.identity (value : CharacterRecord) : CharacterIdentity :=
  ⟨value.conreyNumber, value.primitiveOrdinal, value.parity.val⟩

/-- **A determined record is the record of the samples that it forces.** -/
theorem scanOf_realize (h : Valid value start mask) (hdetermined : Determined value) :
    (scanOf value.identity start value.realize).plain = value.plain := by
  have hid : value.identity.WellFormed := ⟨h.conrey, h.ordinal, h.parity⟩
  have hlength : value.realize.length = mask.length := by
    rw [← length_maskOf, maskOf_realize h]
  have hgrid : InGrid start value.realize.length := by
    rw [hlength]
    intro i hi
    obtain ⟨hlow, hhigh⟩ := h.inGrid (List.ne_nil_of_length_pos (by omega))
    simp only [after, SOURCE_SAMPLE_NUMERATOR] at hhigh ⊢
    omega
  obtain ⟨hscan, hcoherent⟩ := valid_scanOf hid hgrid
  rw [maskOf_realize h] at hscan
  have hkept : WellKept value.identity (scanOf value.identity start value.realize) :=
    wellKept_scanOf start value.realize
  -- both records force the same signs
  have hsigns : ∀ i, mask[i]? = some true →
      (scanOf value.identity start value.realize).forcedSign (after start i)
        = value.forcedSign (after start i) := by
    intro i hmark
    obtain ⟨hne, hval⟩ := forced_of_mark h hmark
    have hx : value.realize[i]? = some (value.forced (after start i)) := by
      rw [realize_getElem? h, if_pos (List.getElem?_eq_some_iff.mp hmark).1]
    rw [forcedSign_scanOf hid hgrid hx hne, hval]
  have hfirst : (scanOf value.identity start value.realize).firstSign.val = value.firstSign.val := by
    by_cases hmask : true ∈ mask
    · obtain ⟨lo, hi, hends⟩ := exists_maskEnds start hmask
      have heq := hsigns lo hends.lowMark
      have hfrom : ∀ {value' : CharacterRecord}, Valid value' start mask →
          value'.forcedSign (after start lo) = value'.firstSign.val := by
        intro value' h'
        rw [CharacterRecord.forcedSign, endedBrackets_eq_zero
          (signChanges_from h'.changes fun j hj => (hends.inside j hj).1) (le_refl lo), pow_zero,
          mul_one]
      rwa [hfrom hscan, hfrom h] at heq
    · exact (hscan.noSigns hmask).1.trans (h.noSigns hmask).1.symm
  have hchain := hscan.fullChain hcoherent
  have hchain' := h.fullChain hdetermined.1
  rw [hfirst] at hchain
  have hbrackets := brackets_unique hscan.changes h.changes hchain hchain' fun k _ hmark => by
    have heq := hsigns k hmark
    have hne : value.firstSign.val ≠ 0 := by
      have := isSign_iff.mp (h.signs (List.mem_of_getElem? hmark)).1
      omega
    rw [CharacterRecord.forcedSign, CharacterRecord.forcedSign, hfirst] at heq
    exact mul_left_cancel₀ hne heq
  have hcount : (scanOf value.identity start value.realize).bracketRecords.length
      = value.bracketRecords.length := by
    have := congrArg List.length hbrackets
    rwa [List.length_map, List.length_map] at this
  have hlast : (scanOf value.identity start value.realize).lastSign.val = value.lastSign.val := by
    rw [signChain_parity hchain, signChain_parity hchain', hcount]
  have hbracketCount : (scanOf value.identity start value.realize).bracketCount
      = value.bracketCount := by
    rw [hscan.bracketCount, hcount, h.bracketCount]
  have hpositive : (scanOf value.identity start value.realize).positiveCount
      = value.positiveCount := by
    rw [positiveCount_scanOf, hdetermined.2]
  have hshape := hscan.shape.trans h.shape.symm
  refine CharacterRecord.ext hkept.conrey hkept.ordinal ?_ (congrArg Shape.sampleCount hshape)
    (congrArg Shape.firstDeterminateNumerator hshape) (congrArg PyInt.int hfirst)
    (congrArg Shape.lastDeterminateNumerator hshape) (congrArg PyInt.int hlast)
    (congrArg Shape.leadingAmbiguityCount hshape) (congrArg Shape.trailingAmbiguityCount hshape)
    (congrArg Shape.ambiguityCount hshape) hpositive ?_ hbracketCount ?_
    (congrArg Shape.ambiguityRanges hshape) hbrackets
  · show (scanOf value.identity start value.realize).parity.plain = value.parity.plain
    rw [hkept.parity]
    rfl
  · have hdeterminate := hscan.determinate
    have hdeterminate' := h.determinate
    show (scanOf value.identity start value.realize).negativeCount = value.negativeCount
    omega
  · show (scanOf value.identity start value.realize).multiplicityLowerBoundSum
      = value.multiplicityLowerBoundSum
    rw [hscan.multiplicity, h.multiplicity, hbracketCount]

/-! ## Which records come from a scan -/

theorem realize_plain (value : CharacterRecord) : value.plain.realize = value.realize := by
  have hforced : ∀ t, value.plain.forced t = value.forced t := by
    intro t
    have hended : endedBrackets value.plain.bracketRecords t
        = endedBrackets value.bracketRecords t := by
      show endedBrackets (value.bracketRecords.map BracketRecord.plain) t = _
      rw [endedBrackets, List.countP_map]
      rfl
    rw [CharacterRecord.forced, CharacterRecord.forced, CharacterRecord.forcedSign, hended]
    rfl
  have hspan : value.plain.span = value.span := rfl
  rw [realize, realize, hspan]
  simp only [hforced]
  rfl

theorem coherent_plain : Coherent value.plain ↔ Coherent value := by
  unfold Coherent
  show (value.bracketRecords.map BracketRecord.plain = [] → _) ↔ _
  rw [List.map_eq_nil_iff]
  rfl

theorem determined_plain : Determined value.plain ↔ Determined value := by
  unfold Determined
  rw [coherent_plain, realize_plain]
  rfl

theorem determined_scanOf (hid : id.WellFormed) {xs : List SignType}
    (hgrid : InGrid start xs.length) : Determined (scanOf id start xs) :=
  ⟨(valid_scanOf hid hgrid).2, by rw [realize_scanOf hid hgrid, positiveCount_scanOf]⟩

theorem inGrid_of_onSpan (h : Valid value start mask) {start' : Int} {xs : List SignType}
    (hspan : OnSpan value start' xs) : InGrid start' xs.length := by
  obtain ⟨hlength, hstart⟩ := (onSpan_iff h).mp hspan
  intro i hi
  obtain rfl := hstart (List.ne_nil_of_length_pos (by omega))
  obtain ⟨hlow, hhigh⟩ := h.inGrid (List.ne_nil_of_length_pos (by omega))
  simp only [after, SOURCE_SAMPLE_NUMERATOR] at hhigh ⊢
  omega

/-- A record that a scan made is determined. -/
theorem determined_of_scan (hvalid : value.validate = .ok ()) {xs : List SignType}
    {made : CharacterRecord} (hspan : OnSpan value start xs)
    (hscan : scanRecord id start xs = .ok made) (hsame : made.plain = value.plain) :
    Determined value := by
  obtain ⟨start', mask, h⟩ := validate_iff.mp hvalid
  have hgrid := inGrid_of_onSpan h hspan
  obtain ⟨hmade, rfl⟩ := (scanRecord_ok hgrid).mp hscan
  obtain ⟨_, _, hname⟩ := validate_iff.mp hmade
  have hkept : WellKept id (scanOf id start xs) := wellKept_scanOf start xs
  have hid : id.WellFormed := by
    refine ⟨?_, ?_, ?_⟩
    · rw [← hkept.conrey]
      exact hname.conrey
    · rw [← hkept.ordinal]
      exact hname.ordinal
    · have hparity := hname.parity
      rw [hkept.parity] at hparity
      exact hparity
  rw [← determined_plain, ← hsame, determined_plain]
  exact determined_scanOf hid hgrid

/-- **An accepted record comes from a scan of samples on its span exactly when it is
determined.** -/
theorem realizable_iff (hvalid : value.validate = .ok ()) :
    (∃ id start xs made, OnSpan value start xs ∧ scanRecord id start xs = .ok made
      ∧ made.plain = value.plain) ↔ Determined value := by
  constructor
  · intro hall
    obtain ⟨id, start, xs, made, hspan, hscan, hsame⟩ := hall
    exact determined_of_scan hvalid hspan hscan hsame
  · intro hdetermined
    obtain ⟨start, mask, h⟩ := validate_iff.mp hvalid
    have hlength : value.realize.length = mask.length := by
      rw [← length_maskOf, maskOf_realize h]
    have hspan : OnSpan value start value.realize := (onSpan_iff h).mpr ⟨hlength, fun _ => rfl⟩
    have hgrid := inGrid_of_onSpan h hspan
    have hid : value.identity.WellFormed := ⟨h.conrey, h.ordinal, h.parity⟩
    exact ⟨value.identity, start, value.realize, _, hspan,
      scanRecord_of_valid hgrid (valid_scanOf hid hgrid).1.validate,
      scanOf_realize h hdetermined⟩

/-- A positive and a negative sample next to each other, with the bracket left out. -/
def signsApart : CharacterRecord where
  conreyNumber := 2
  primitiveOrdinal := 0
  parity := .int 1
  sampleCount := 2
  firstDeterminateNumerator := some 0
  firstSign := .int 1
  lastDeterminateNumerator := some 5
  lastSign := .int (-1)
  leadingAmbiguityCount := 0
  trailingAmbiguityCount := 0
  ambiguityCount := 0
  positiveCount := 1
  negativeCount := 1
  bracketCount := 0
  multiplicityLowerBoundSum := 0
  ambiguityRanges := []
  bracketRecords := []

theorem validate_signsApart : signsApart.validate = .ok () := by rfl

theorem realizable_signsApart : (∃ id start xs made, OnSpan signsApart start xs
    ∧ scanRecord id start xs = .ok made ∧ made.plain = signsApart.plain)
    ↔ Determined signsApart :=
  realizable_iff validate_signsApart

/-- **The validator accepts a record of no scan.** -/
theorem signsApart_not_realizable : signsApart.validate = .ok ()
    ∧ ¬ ∃ id start xs made, OnSpan signsApart start xs ∧ scanRecord id start xs = .ok made
      ∧ made.plain = signsApart.plain := by
  refine ⟨validate_signsApart, fun ⟨id, start, xs, made, hspan, hscan, hsame⟩ => ?_⟩
  have hsigns := (determined_of_scan validate_signsApart hspan hscan hsame).1 rfl
  exact absurd hsigns (by decide)

end AttestedCompute.Dirichlet
