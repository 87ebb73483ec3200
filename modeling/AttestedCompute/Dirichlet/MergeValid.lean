import AttestedCompute.Dirichlet.ValidatorExact

/-!
# When a merge is valid

Two valid records in a row merge to a valid record, unless brackets come out and one side
keeps its signs apart: no brackets of its own, and different signs at its ends. Such a
record is not `Coherent`. Every scan is coherent, so scans merge, and the merge is the scan
of both chunks.
-/

namespace AttestedCompute.Dirichlet

open Fallible CharacterRecord

variable {a b : CharacterRecord} {start : Int} {m n : List Bool}

/-- Without brackets the record begins and ends with one sign. -/
def Coherent (value : CharacterRecord) : Prop :=
  value.bracketRecords = [] → value.firstSign.val = value.lastSign.val

instance (value : CharacterRecord) : Decidable (Coherent value) :=
  inferInstanceAs (Decidable (_ → _))

/-! ## Chains of signs -/

theorem signChain_append {bs cs : List BracketRecord} {sign last : Int} :
    SignChain sign (bs ++ cs) last ↔ ∃ middle, SignChain sign bs middle ∧ SignChain middle cs last := by
  induction bs generalizing sign with
  | nil => exact ⟨fun h => ⟨sign, rfl, h⟩, fun ⟨_, h, h'⟩ => (show sign = _ from h) ▸ h'⟩
  | cons b rest ih =>
      constructor
      · intro hall
        obtain ⟨h₁, h₂, h₃, h₄, h⟩ := hall
        obtain ⟨middle, hm, hm'⟩ := ih.mp h
        exact ⟨middle, ⟨h₁, h₂, h₃, h₄, hm⟩, hm'⟩
      · intro hall
        obtain ⟨middle, ⟨h₁, h₂, h₃, h₄, hm⟩, hm'⟩ := hall
        exact ⟨h₁, h₂, h₃, h₄, ih.mpr ⟨middle, hm, hm'⟩⟩

theorem signChain_unique {bs : List BracketRecord} {sign last last' : Int}
    (h : SignChain sign bs last) (h' : SignChain sign bs last') : last = last' := by
  induction bs generalizing sign with
  | nil => exact (show sign = last from h).symm.trans h'
  | cons b rest ih => exact ih h.2.2.2.2 h'.2.2.2.2

theorem signChain_first {bs : List BracketRecord} {sign sign' last last' : Int} (hne : bs ≠ [])
    (h : SignChain sign bs last) (h' : SignChain sign' bs last') : sign = sign' := by
  cases bs with
  | nil => exact absurd rfl hne
  | cons b rest => exact h.1.symm.trans h'.1

theorem Valid.fullChain (h : Valid a start m) (hcoherent : Coherent a) :
    SignChain a.firstSign.val a.bracketRecords a.lastSign.val := by
  by_cases hne : a.bracketRecords = []
  · rw [hne]
    exact hcoherent hne
  · exact h.chain hne

/-- Across the cut the signs change exactly when there is a bracket. -/
theorem crossing_chain (hs : isSign a.lastSign = true) (hs' : isSign b.firstSign = true)
    (hfirst : a.firstDeterminateNumerator.isSome = true)
    (hfirst' : b.firstDeterminateNumerator.isSome = true) :
    SignChain a.lastSign.val (crossing a b) b.firstSign.val := by
  by_cases hcross : crosses a b = true
  · have hne : a.lastSign.val ≠ b.firstSign.val := by
      simp only [crosses, hfirst, hfirst', Bool.and_self, Bool.true_and, decide_eq_true_eq] at hcross
      exact hcross
    rw [crossing, if_pos hcross]
    exact ⟨rfl, hs, hs', hne, rfl⟩
  · have heq : a.lastSign.val = b.firstSign.val := by
      simp only [crosses, hfirst, hfirst', Bool.and_self, Bool.true_and, decide_eq_true_eq,
        not_not] at hcross
      exact hcross
    rw [crossing, if_neg hcross]
    exact heq

/-! ## Brackets over two masks in a row -/

variable {c : BracketRecord} {j k : Nat}

theorem BracketRecord.Spans.append_left (h : c.Spans start m j k) (n : List Bool) :
    c.Spans start (m ++ n) j k := by
  have hk := (List.getElem?_eq_some_iff.mp h.upperMark).1
  have hjk := h.lt
  have hleft : ∀ x < m.length, (m ++ n)[x]? = m[x]? := fun x hx => List.getElem?_append_left hx
  refine ⟨h.lower, h.upper, h.lt, ?_, ?_, fun x hx hx' => ?_, h.intervening⟩
  · rw [hleft j (by omega)]
    exact h.lowerMark
  · rw [hleft k hk]
    exact h.upperMark
  · rw [hleft x (by omega)]
    exact h.between x hx hx'

theorem BracketRecord.Spans.append_right (m : List Bool)
    (h : c.Spans (after start m.length) n j k) :
    c.Spans start (m ++ n) (m.length + j) (m.length + k) := by
  have hright : ∀ x, (m ++ n)[m.length + x]? = n[x]? := fun x => by
    rw [List.getElem?_append_right (Nat.le_add_right _ _), Nat.add_sub_cancel_left]
  have hlt := h.lt
  refine ⟨?_, ?_, by omega, ?_, ?_, fun x hx hx' => ?_, ?_⟩
  · rw [h.lower, after_after]
  · rw [h.upper, after_after]
  · rw [hright]
    exact h.lowerMark
  · rw [hright]
    exact h.upperMark
  · obtain ⟨y, rfl⟩ := Nat.exists_eq_add_of_le (show m.length ≤ x by omega)
    rw [hright]
    exact h.between y (by omega) (by omega)
  · rw [h.intervening]
    push_cast
    omega

theorem signChanges_append_left {bs cs : List BracketRecord} {i hi : Nat}
    (h : SignChanges start m i bs) (hi' : i ≤ hi) (hmarks : ∀ j, m[j]? = some true → j ≤ hi)
    (hrest : SignChanges start (m ++ n) hi cs) : SignChanges start (m ++ n) i (bs ++ cs) := by
  induction bs generalizing i with
  | nil => exact signChanges_mono hi' hrest
  | cons b rest ih =>
      obtain ⟨j, k, hij, hspans, hchanges⟩ := h
      exact ⟨j, k, hij, hspans.append_left n, ih hchanges (hmarks k hspans.upperMark)⟩

theorem signChanges_append_right {bs : List BracketRecord} {i : Nat}
    (h : SignChanges (after start m.length) n i bs) :
    SignChanges start (m ++ n) (m.length + i) bs := by
  induction bs generalizing i with
  | nil => trivial
  | cons b rest ih =>
      obtain ⟨j, k, hij, hspans, hchanges⟩ := h
      exact ⟨_, _, by omega, hspans.append_right m, ih hchanges⟩

/-- Brackets start at a determinate sample. -/
theorem signChanges_from {bs : List BracketRecord} {i lo : Nat} (h : SignChanges start m i bs)
    (hmarks : ∀ j, m[j]? = some true → lo ≤ j) : SignChanges start m lo bs := by
  cases bs with
  | nil => trivial
  | cons b rest =>
      obtain ⟨j, k, _, hspans, hchanges⟩ := h
      exact ⟨j, k, hmarks j hspans.lowerMark, hspans, hchanges⟩

/-- Without determinate samples there are no brackets. -/
theorem Valid.noBrackets (h : Valid a start m) (hmask : true ∉ m) : a.bracketRecords = [] := by
  have hbrackets := h.brackets_le
  have hzero := List.count_eq_zero.mpr hmask
  have hdeterminate : a.determinate = m.count true := h.determinate
  exact List.length_eq_zero_iff.mp (by omega)

theorem Valid.isSome_first (h : Valid a start m) :
    a.firstDeterminateNumerator.isSome = true ↔ true ∈ m := by
  rw [h.first, plot_first_isSome]

/-- The bracket across the cut. -/
theorem crossing_spans (ha : Valid a start m) (hb : Valid b (after start m.length) n)
    {lo hi lo' hi' : Nat} (hm : MaskEnds start m lo hi)
    (hn : MaskEnds (after start m.length) n lo' hi') (sign sign' : PyInt) :
    BracketRecord.Spans start (m ++ n)
      { lowerTNumerator := a.lastDeterminateNumerator.getD 0
        upperTNumerator := b.firstDeterminateNumerator.getD 0
        lowerSign := sign
        upperSign := sign'
        interveningAmbiguityCount := a.trailingAmbiguityCount + b.leadingAmbiguityCount }
      hi (m.length + lo') := by
  have hlt := hm.lt_length
  have hright : ∀ x, (m ++ n)[m.length + x]? = n[x]? := fun x => by
    rw [List.getElem?_append_right (Nat.le_add_right _ _), Nat.add_sub_cancel_left]
  refine ⟨?_, ?_, by omega, ?_, ?_, fun x hx hx' => ?_, ?_⟩
  · show a.lastDeterminateNumerator.getD 0 = _
    rw [ha.last, hm.last]
    rfl
  · show b.firstDeterminateNumerator.getD 0 = _
    rw [hb.first, hn.first, Option.getD_some, after_after]
  · rw [List.getElem?_append_left hlt]
    exact hm.highMark
  · rw [hright]
    exact hn.lowMark
  · have hlength : x < (m ++ n).length := by
      have := (List.getElem?_eq_some_iff.mp hn.lowMark).1
      rw [List.length_append]
      omega
    -- a determinate sample here would come after the last or before the first one
    cases hmark : (m ++ n)[x]? with
    | none => exact absurd (List.getElem?_eq_none_iff.mp hmark) (not_le.mpr hlength)
    | some d =>
        cases d with
        | false => rfl
        | true =>
            rcases Nat.lt_or_ge x m.length with hxm | hxm
            · rw [List.getElem?_append_left hxm] at hmark
              exact absurd (hm.inside x hmark).2 (by omega)
            · obtain ⟨y, rfl⟩ := Nat.exists_eq_add_of_le hxm
              rw [hright] at hmark
              exact absurd (hn.inside y hmark).1 (by omega)
  · show a.trailingAmbiguityCount + b.leadingAmbiguityCount = _
    rw [ha.trailing, hm.trailing, hb.leading, hn.leading]
    push_cast
    omega

theorem merge_changes (ha : Valid a start m) (hb : Valid b (after start m.length) n) :
    SignChanges start (m ++ n) 0 (merge a b).bracketRecords := by
  show SignChanges start (m ++ n) 0 (a.bracketRecords ++ crossing a b ++ b.bracketRecords)
  have hright := signChanges_append_right hb.changes
  by_cases hm : true ∈ m
  · obtain ⟨lo, hi, hends⟩ := exists_maskEnds start hm
    have hlt := hends.lt_length
    rw [List.append_assoc]
    refine signChanges_append_left ha.changes (Nat.zero_le hi) (fun j hj => (hends.inside j hj).2) ?_
    by_cases hcross : crosses a b = true
    · have hsome : b.firstDeterminateNumerator.isSome = true := by
        simp only [crosses, Bool.and_eq_true] at hcross
        exact hcross.1.2
      obtain ⟨lo', hi', hends'⟩ := exists_maskEnds (after start m.length) (hb.isSome_first.mp hsome)
      rw [crossing, if_pos hcross]
      refine ⟨hi, m.length + lo', le_refl _, crossing_spans ha hb hends hends' _ _, ?_⟩
      exact signChanges_append_right
        (signChanges_from hb.changes fun j hj => (hends'.inside j hj).1)
    · rw [crossing, if_neg hcross]
      exact signChanges_mono (by omega) hright
  · have hnone : a.firstDeterminateNumerator = none := by
      rw [← Option.not_isSome_iff_eq_none, ha.isSome_first]
      exact hm
    rw [ha.noBrackets hm, crossing, crosses_of_none_left hnone]
    exact signChanges_mono (Nat.zero_le _) hright

theorem merge_firstSign (a b : CharacterRecord) : (merge a b).firstSign
    = if a.firstDeterminateNumerator.isSome then a.firstSign else b.firstSign := rfl

theorem merge_lastSign (a b : CharacterRecord) : (merge a b).lastSign
    = if b.firstDeterminateNumerator.isSome then b.lastSign else a.lastSign := rfl

theorem merge_brackets (a b : CharacterRecord) : (merge a b).bracketRecords
    = a.bracketRecords ++ crossing a b ++ b.bracketRecords := rfl

/-- The signs of coherent records lead through the merge. -/
theorem merge_chain (ha : Valid a start m) (hb : Valid b (after start m.length) n)
    (hne : (merge a b).bracketRecords ≠ []) (hcoherent : Coherent a ∧ Coherent b) :
    SignChain (merge a b).firstSign.val (merge a b).bracketRecords (merge a b).lastSign.val := by
  rw [merge_firstSign, merge_lastSign]
  rw [merge_brackets] at hne ⊢
  by_cases hm : true ∈ m
  · by_cases hn : true ∈ n
    · have hsome := ha.isSome_first.mpr hm
      have hsome' := hb.isSome_first.mpr hn
      rw [if_pos hsome, if_pos hsome']
      refine signChain_append.mpr ⟨_, signChain_append.mpr ⟨_, ha.fullChain hcoherent.1, ?_⟩,
        hb.fullChain hcoherent.2⟩
      exact crossing_chain (ha.signs hm).2 (hb.signs hn).1 hsome hsome'
    · have hnone := mt hb.isSome_first.mp hn
      have hcross := crosses_of_none_right (a := a) (Option.not_isSome_iff_eq_none.mp hnone)
      rw [if_pos (ha.isSome_first.mpr hm), if_neg hnone]
      rw [hb.noBrackets hn, crossing, hcross] at hne ⊢
      simp only [Bool.false_eq_true, if_false, List.append_nil] at hne ⊢
      exact ha.chain hne
  · have hnone := mt ha.isSome_first.mp hm
    have hcross := crosses_of_none_left (b := b) (Option.not_isSome_iff_eq_none.mp hnone)
    rw [if_neg hnone]
    rw [ha.noBrackets hm, crossing, hcross] at hne ⊢
    simp only [Bool.false_eq_true, if_false, List.append_nil, List.nil_append] at hne ⊢
    by_cases hn : true ∈ n
    · rw [if_pos (hb.isSome_first.mpr hn)]
      exact hb.chain hne
    · exact absurd (hb.noBrackets hn) hne

/-- **Brackets that come out of a merge show that both sides are coherent.** -/
theorem coherent_of_chain (ha : Valid a start m) (hb : Valid b (after start m.length) n)
    (hne : (merge a b).bracketRecords ≠ [])
    (hchain : SignChain (merge a b).firstSign.val (merge a b).bracketRecords
      (merge a b).lastSign.val) : Coherent a ∧ Coherent b := by
  rw [merge_firstSign, merge_lastSign] at hchain
  rw [merge_brackets] at hne hchain
  by_cases hm : true ∈ m
  · by_cases hn : true ∈ n
    · have hsome := ha.isSome_first.mpr hm
      have hsome' := hb.isSome_first.mpr hn
      have hcut := crossing_chain (ha.signs hm).2 (hb.signs hn).1 hsome hsome'
      rw [if_pos hsome, if_pos hsome'] at hchain
      obtain ⟨middle, hleft, hright⟩ := signChain_append.mp hchain
      refine ⟨fun hnil => ?_, fun hnil => ?_⟩
      · -- the first bracket starts with the last sign of the left record
        rw [hnil, List.nil_append] at hleft hne
        by_cases hcrossing : crossing a b = []
        · rw [hcrossing] at hleft hcut hne
          have hfirst := signChain_first hne hright (hb.chain hne)
          exact (show _ = middle from hleft).trans (hfirst.trans (show _ = _ from hcut).symm)
        · exact signChain_first hcrossing hleft hcut
      · -- the last bracket ends with the first sign of the right record
        rw [hnil, List.append_nil] at hne
        rw [hnil] at hright
        rw [← show middle = _ from hright]
        obtain ⟨middle', hleft, hcross⟩ := signChain_append.mp hleft
        by_cases hcrossing : crossing a b = []
        · rw [hcrossing] at hcross hcut
          rw [hcrossing, List.append_nil] at hne
          have hlast := signChain_unique hleft (ha.chain hne)
          exact (show _ = _ from hcut).symm.trans (hlast.symm.trans (show _ = middle from hcross))
        · have hlast := signChain_first hcrossing hcross hcut
          rw [hlast] at hcross
          exact signChain_unique hcut hcross
    · have hnone := mt hb.isSome_first.mp hn
      have hcross := crosses_of_none_right (a := a) (Option.not_isSome_iff_eq_none.mp hnone)
      rw [hb.noBrackets hn, crossing, hcross] at hne
      refine ⟨fun hnil => absurd (by simp [hnil]) hne, fun _ => ?_⟩
      exact (hb.noSigns hn).1.trans (hb.noSigns hn).2.symm
  · have hnone := mt ha.isSome_first.mp hm
    have hcross := crosses_of_none_left (b := b) (Option.not_isSome_iff_eq_none.mp hnone)
    rw [ha.noBrackets hm, crossing, hcross] at hne
    refine ⟨fun _ => (ha.noSigns hm).1.trans (ha.noSigns hm).2.symm,
      fun hnil => absurd (by simp [hnil]) hne⟩

/-! ## The merged record -/

theorem merge_last (a b : CharacterRecord) : (merge a b).lastDeterminateNumerator
    = if b.firstDeterminateNumerator.isSome then b.lastDeterminateNumerator
      else a.lastDeterminateNumerator := rfl

/-- A merge shows nothing new. -/
theorem shown_merge (ha : Valid a start m) (b : CharacterRecord) :
    ∀ e ∈ (merge a b).shown, e ∈ a.shown ∨ e ∈ b.shown := by
  have hmem : ∀ {value : CharacterRecord} {e : Int × Int}, e ∈ value.shown
      ↔ (∃ first ∈ value.firstDeterminateNumerator, (first, value.firstSign.val) = e)
        ∨ (∃ last ∈ value.lastDeterminateNumerator, (last, value.lastSign.val) = e)
        ∨ ∃ c ∈ value.bracketRecords, e ∈ c.ends := by
    intro value e
    simp [shown]
  intro e he
  rw [hmem, hmem]
  rcases hmem.mp he with ⟨first, hfirst, rfl⟩ | ⟨last, hlast, rfl⟩ | ⟨c, hc, he⟩
  · rw [merge_firstSign]
    rw [merge_firstDeterminate] at hfirst
    split at hfirst
    · rename_i h
      exact .inl (.inl ⟨first, hfirst, by rw [if_pos h]⟩)
    · rename_i h
      exact .inr (.inl ⟨first, hfirst, by rw [if_neg h]⟩)
  · rw [merge_lastSign]
    rw [merge_last] at hlast
    split at hlast
    · rename_i h
      exact .inr (.inr (.inl ⟨last, hlast, by rw [if_pos h]⟩))
    · rename_i h
      exact .inl (.inr (.inl ⟨last, hlast, by rw [if_neg h]⟩))
  · rw [merge_brackets, List.append_assoc, List.mem_append, List.mem_append] at hc
    rcases hc with hc | hc | hc
    · exact .inl (.inr (.inr ⟨c, hc, he⟩))
    · -- the bracket across the cut shows the last sample before it and the first after it
      by_cases hcross : crosses a b = true
      · rw [crossing, if_pos hcross, List.mem_singleton] at hc
        subst hc
        simp only [crosses, Bool.and_eq_true] at hcross
        obtain ⟨⟨hsome, hsome'⟩, _⟩ := hcross
        obtain ⟨lo, hi, hends⟩ := exists_maskEnds start (ha.isSome_first.mp hsome)
        obtain ⟨first, hfirst⟩ := Option.isSome_iff_exists.mp hsome'
        have hlast := ha.last.trans hends.last
        simp only [BracketRecord.ends, List.mem_cons, List.not_mem_nil, or_false, hlast, hfirst,
          Option.getD_some] at he
        rcases he with rfl | rfl
        · exact .inl (.inr (.inl ⟨_, hlast, rfl⟩))
        · exact .inr (.inl ⟨_, hfirst, rfl⟩)
      · rw [crossing, if_neg hcross] at hc
        cases hc
    · exact .inr (.inr (.inr ⟨c, hc, he⟩))

theorem shownCount_merge (ha : Valid a start m) (b : CharacterRecord) (kind : Int → Bool) :
    (merge a b).shownCount kind ≤ a.shownCount kind + b.shownCount kind := by
  refine le_trans (Finset.card_le_card ?_) (Finset.card_union_le _ _)
  intro e he
  simp only [Finset.mem_filter, List.mem_toFinset, Finset.mem_union] at he ⊢
  rcases shown_merge ha b e he.1 with h | h
  · exact .inl ⟨h, he.2⟩
  · exact .inr ⟨h, he.2⟩

/-- One sign for one sample, also after the merge. -/
theorem merge_oneSign (ha : Valid a start m) (hb : Valid b (after start m.length) n)
    (heq : (merge a b).firstDeterminateNumerator = (merge a b).lastDeterminateNumerator) :
    (merge a b).firstSign.val = (merge a b).lastSign.val := by
  rw [merge_firstDeterminate, merge_last] at heq
  rw [merge_firstSign, merge_lastSign]
  by_cases hm : true ∈ m
  · by_cases hn : true ∈ n
    · obtain ⟨lo, hi, hends⟩ := exists_maskEnds start hm
      obtain ⟨lo', hi', hends'⟩ := exists_maskEnds (after start m.length) hn
      rw [if_pos (ha.isSome_first.mpr hm), if_pos (hb.isSome_first.mpr hn), ha.first, hends.first,
        hb.last, hends'.last, after_after, Option.some.injEq, after_inj] at heq
      have hle := (hends.inside hi hends.highMark).1
      have hlt := hends.lt_length
      omega
    · rw [if_pos (ha.isSome_first.mpr hm), if_neg (mt hb.isSome_first.mp hn)] at heq ⊢
      exact ha.oneSign heq
  · by_cases hn : true ∈ n
    · rw [if_neg (mt ha.isSome_first.mp hm), if_pos (hb.isSome_first.mpr hn)] at heq ⊢
      exact hb.oneSign heq
    · rw [if_neg (mt ha.isSome_first.mp hm), if_neg (mt hb.isSome_first.mp hn)]
      exact (hb.noSigns hn).1.trans (ha.noSigns hm).2.symm

/-- **Coherent records in a row merge to a valid record.** Without brackets in the merge
they need not be coherent. -/
theorem Valid.merge (ha : Valid a start m) (hb : Valid b (after start m.length) n)
    (hcoherent : (merge a b).bracketRecords ≠ [] → Coherent a ∧ Coherent b) :
    Valid (merge a b) start (m ++ n) := by
  have hbracketCount : (CharacterRecord.merge a b).bracketCount
      = (CharacterRecord.merge a b).bracketRecords.length := by
    have hone : (if crosses a b then 1 else 0) = ((crossing a b).length : Int) := by
      unfold crossing
      split <;> rfl
    show a.bracketCount + b.bracketCount + (if crosses a b then 1 else 0) = _
    rw [merge_brackets, hone, ha.bracketCount, hb.bracketCount]
    simp only [List.length_append]
    push_cast
    omega
  refine ⟨ha.conrey, ha.ordinal, ha.parity, ?_, fun hne => ?_, ?_, Int.add_nonneg ha.positive
    hb.positive, Int.add_nonneg ha.negative hb.negative, hbracketCount, rfl, fun hmask => ?_,
    fun hmask => ?_, merge_oneSign ha hb, merge_changes ha hb,
    fun hne => merge_chain ha hb hne (hcoherent hne), ?_, ?_⟩
  · rw [shape_merge, ha.shape, hb.shape, plot_append]
  · rw [List.length_append, ← after_after]
    by_cases hm : m = []
    · subst hm
      have h := hb.inGrid hne
      rwa [List.length_nil, after_zero] at h ⊢
    · obtain ⟨hlow, hhigh⟩ := ha.inGrid hm
      refine ⟨hlow, ?_⟩
      by_cases hn : n = []
      · rw [hn, List.length_nil, after_zero]
        exact hhigh
      · exact (hb.inGrid hn).2
  · have hdeterminate := ha.determinate
    have hdeterminate' := hb.determinate
    show a.positiveCount + b.positiveCount + (a.negativeCount + b.negativeCount) = _
    rw [List.count_append]
    push_cast
    omega
  · rw [List.mem_append, not_or] at hmask
    rw [merge_firstSign, merge_lastSign, if_neg (mt ha.isSome_first.mp hmask.1),
      if_neg (mt hb.isSome_first.mp hmask.2)]
    exact ⟨(hb.noSigns hmask.2).1, (ha.noSigns hmask.1).2⟩
  · rw [merge_firstSign, merge_lastSign]
    rw [List.mem_append] at hmask
    by_cases hm : true ∈ m
    · rw [if_pos (ha.isSome_first.mpr hm)]
      refine ⟨(ha.signs hm).1, ?_⟩
      by_cases hn : true ∈ n
      · rw [if_pos (hb.isSome_first.mpr hn)]
        exact (hb.signs hn).2
      · rw [if_neg (mt hb.isSome_first.mp hn)]
        exact (ha.signs hm).2
    · have hn := hmask.resolve_left hm
      rw [if_neg (mt ha.isSome_first.mp hm), if_pos (hb.isSome_first.mpr hn)]
      exact hb.signs hn
  · have hcount := shownCount_merge ha b fun sign => sign > 0
    have hpositive := ha.positiveShown
    have hpositive' := hb.positiveShown
    show _ ≤ a.positiveCount + b.positiveCount
    omega
  · have hcount := shownCount_merge ha b fun sign => sign < 0
    have hnegative := ha.negativeShown
    have hnegative' := hb.negativeShown
    show _ ≤ a.negativeCount + b.negativeCount
    omega

/-- **Exactly when a merge passes the validator.** -/
theorem validate_merge_iff (ha : Valid a start m) (hb : Valid b (after start m.length) n) :
    (merge a b).validate = .ok ()
      ↔ ((merge a b).bracketRecords ≠ [] → Coherent a ∧ Coherent b) := by
  constructor
  · intro h hne
    obtain ⟨_, _, hvalid⟩ := validate_iff.mp h
    exact coherent_of_chain ha hb hne (hvalid.chain hne)
  · intro h
    exact (ha.merge hb h).validate

/-- A merge of coherent records is coherent. -/
theorem Coherent.merge (ha : Valid a start m) (hb : Valid b (after start m.length) n)
    (hca : Coherent a) (hcb : Coherent b) : Coherent (merge a b) := by
  intro hnil
  rw [merge_brackets, List.append_eq_nil_iff, List.append_eq_nil_iff] at hnil
  obtain ⟨⟨hnila, hcrossing⟩, hnilb⟩ := hnil
  have hsigna := hca hnila
  have hsignb := hcb hnilb
  rw [merge_firstSign, merge_lastSign]
  by_cases hm : true ∈ m
  · by_cases hn : true ∈ n
    · have hsome := ha.isSome_first.mpr hm
      have hsome' := hb.isSome_first.mpr hn
      have hcut := crossing_chain (ha.signs hm).2 (hb.signs hn).1 hsome hsome'
      rw [hcrossing] at hcut
      rw [if_pos hsome, if_pos hsome', hsigna, ← hsignb]
      exact hcut
    · rw [if_pos (ha.isSome_first.mpr hm), if_neg (mt hb.isSome_first.mp hn)]
      exact hsigna
  · rw [if_neg (mt ha.isSome_first.mp hm)]
    by_cases hn : true ∈ n
    · rw [if_pos (hb.isSome_first.mpr hn)]
      exact hsignb
    · rw [if_neg (mt hb.isSome_first.mp hn)]
      exact (hb.noSigns hn).1.trans (ha.noSigns hm).2.symm

end AttestedCompute.Dirichlet
