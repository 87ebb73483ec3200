import AttestedCompute.Dirichlet.ChunkCombine

/-!
# Grouping three chunks

The merge of three records in a row does not depend on the grouping, but whether the
validator lets it through can. A record without brackets whose first and last sign differ is
accepted by itself, and two of these in a row may hide each other: their merge is coherent.
Grouped the other way, the second of them meets a bracket and is refused.
-/

namespace AttestedCompute.Dirichlet

open CharacterRecord

variable {x y z : CharacterRecord} {start : Int} {m n : List Bool}

/-- The sign changes across the two cuts. -/
def cutCount (x y z : CharacterRecord) : Int :=
  if y.firstDeterminateNumerator.isSome then
    (if crosses x y then 1 else 0) + (if crosses y z then 1 else 0)
  else if crosses x z then 1 else 0

/-- A sign change is on record in the chunks, or across a cut. -/
def Changes (x y z : CharacterRecord) : Prop :=
  x.bracketRecords ≠ [] ∨ y.bracketRecords ≠ [] ∨ z.bracketRecords ≠ [] ∨ cutCount x y z ≠ 0

/-- Where signs change, every record is coherent. -/
def Sound (x y z : CharacterRecord) : Prop :=
  Changes x y z → Coherent x ∧ Coherent y ∧ Coherent z

/-- Both records skip a sign change, and no sign changes across the cut. -/
def Cancel (x y : CharacterRecord) : Prop :=
  ¬ Coherent x ∧ ¬ Coherent y ∧ crosses x y = false

/-- What the grouping to the left accepts. -/
def AcceptsLeft (x y z : CharacterRecord) : Prop := Sound x y z ∨ Cancel x y ∧ Coherent z

/-- What the grouping to the right accepts. -/
def AcceptsRight (x y z : CharacterRecord) : Prop := Sound x y z ∨ Coherent x ∧ Cancel y z

instance : Decidable (Changes x y z) := inferInstanceAs (Decidable (_ ∨ _ ∨ _ ∨ _))
instance : Decidable (Sound x y z) := inferInstanceAs (Decidable (_ → _))
instance : Decidable (Cancel x y) := inferInstanceAs (Decidable (_ ∧ _ ∧ _))
instance : Decidable (AcceptsLeft x y z) := inferInstanceAs (Decidable (_ ∨ _))
instance : Decidable (AcceptsRight x y z) := inferInstanceAs (Decidable (_ ∨ _))

/-! ## Counting brackets -/

theorem merge_bracketCount (x y : CharacterRecord) : (merge x y).bracketCount
    = x.bracketCount + y.bracketCount + if crosses x y then 1 else 0 := rfl

theorem merge_merge_bracketCount (x y z : CharacterRecord) :
    (merge (merge x y) z).bracketCount
      = x.bracketCount + y.bracketCount + z.bracketCount + cutCount x y z := by
  rw [merge_bracketCount, merge_bracketCount, crosses_merge_left, cutCount]
  by_cases hy : y.firstDeterminateNumerator.isSome = true
  · simp only [hy, if_true]
    omega
  · have hnone : crosses x y = false := by simp [crosses, hy]
    simp only [hy, hnone, Bool.false_eq_true, if_false]
    omega

theorem merge_brackets_ne_nil : (merge x y).bracketRecords ≠ []
    ↔ x.bracketRecords ≠ [] ∨ y.bracketRecords ≠ [] ∨ crosses x y = true := by
  have hcrossing : crossing x y ≠ [] ↔ crosses x y = true := by
    unfold crossing
    split <;> simp [*]
  rw [merge_brackets, ne_eq, List.append_eq_nil_iff, List.append_eq_nil_iff, not_and_or,
    not_and_or, ← ne_eq, ← ne_eq, ← ne_eq, hcrossing]
  tauto

theorem changes_iff : Changes x y z ↔ (merge (merge x y) z).bracketRecords ≠ [] := by
  have hcut : cutCount x y z ≠ 0 ↔ crosses x y = true ∨ crosses (merge x y) z = true := by
    rw [crosses_merge_left, cutCount]
    by_cases hy : y.firstDeterminateNumerator.isSome = true
    · by_cases hxy : crosses x y = true <;> by_cases hyz : crosses y z = true <;>
        simp [hy, hxy, hyz]
    · have hnone : crosses x y = false := by simp [crosses, hy]
      by_cases hxz : crosses x z = true <;> simp [hy, hnone, hxz]
  rw [merge_brackets_ne_nil, merge_brackets_ne_nil, Changes, hcut]
  tauto

/-! ## Coherent pairs -/

/-- An incoherent record has determinate samples, and its signs are opposite. -/
theorem Valid.signs_of_incoherent (h : Valid x start m) (hne : ¬ Coherent x) :
    true ∈ m ∧ x.bracketRecords = [] ∧ x.firstSign.val = - x.lastSign.val := by
  obtain ⟨hnil, hsigns⟩ := Classical.not_imp.mp hne
  have hmask : true ∈ m := by
    by_contra hmask
    obtain ⟨hfirst, hlast⟩ := h.noSigns hmask
    exact hsigns (hfirst.trans hlast.symm)
  refine ⟨hmask, hnil, ?_⟩
  obtain ⟨hfirst, hlast⟩ := h.signs hmask
  simp only [isSign, Bool.or_eq_true, decide_eq_true_eq] at hfirst hlast
  omega

/-- Two records without a sign change around one cut. -/
theorem merge_signs (hx : Valid x start m) (hy : Valid y (after start m.length) n)
    (hm : true ∈ m) (hn : true ∈ n) (hcross : crosses x y = false) :
    (merge x y).firstSign = x.firstSign ∧ (merge x y).lastSign = y.lastSign
      ∧ x.lastSign.val = y.firstSign.val := by
  have hsome := hx.isSome_first.mpr hm
  have hsome' := hy.isSome_first.mpr hn
  rw [merge_firstSign, merge_lastSign, if_pos hsome, if_pos hsome']
  refine ⟨rfl, rfl, ?_⟩
  simpa [crosses, hsome, hsome'] using hcross

/-- Two incoherent records hide each other. -/
theorem Cancel.coherent_merge (h : Cancel x y) (hx : Valid x start m)
    (hy : Valid y (after start m.length) n) : Coherent (merge x y) := by
  obtain ⟨hnx, hny, hcross⟩ := h
  obtain ⟨hm, _, hsignx⟩ := hx.signs_of_incoherent hnx
  obtain ⟨hn, _, hsigny⟩ := hy.signs_of_incoherent hny
  obtain ⟨hfirst, hlast, hmiddle⟩ := merge_signs hx hy hm hn hcross
  intro _
  rw [hfirst, hlast, hsignx, hmiddle, hsigny, Int.neg_neg]

/-- One incoherent record does not hide. -/
theorem coherent_of_merge (hx : Valid x start m) (hy : Valid y (after start m.length) n)
    (hnil : (merge x y).bracketRecords = []) (hmerge : Coherent (merge x y)) :
    (Coherent x ∧ Coherent y) ∨ Cancel x y := by
  have hnot := mt merge_brackets_ne_nil.mpr (not_not.mpr hnil)
  simp only [not_or, ne_eq, not_not, Bool.not_eq_true] at hnot
  obtain ⟨hnilx, hnily, hcross⟩ := hnot
  have hsigns := hmerge hnil
  by_cases hm : true ∈ m
  · by_cases hn : true ∈ n
    · obtain ⟨hfirst, hlast, hmiddle⟩ := merge_signs hx hy hm hn hcross
      rw [hfirst, hlast] at hsigns
      by_cases hcx : Coherent x
      · exact .inl ⟨hcx, fun _ => by rw [← hmiddle, ← hcx hnilx, hsigns]⟩
      · refine .inr ⟨hcx, fun hcy => hcx fun _ => ?_, hcross⟩
        rw [hsigns, ← hcy hnily, hmiddle]
    · have hnone : ¬ y.firstDeterminateNumerator.isSome = true := mt hy.isSome_first.mp hn
      rw [merge_firstSign, merge_lastSign, if_pos (hx.isSome_first.mpr hm), if_neg hnone] at hsigns
      obtain ⟨hfirst, hlast⟩ := hy.noSigns hn
      exact .inl ⟨fun _ => hsigns, fun _ => hfirst.trans hlast.symm⟩
  · have hnone : ¬ x.firstDeterminateNumerator.isSome = true := mt hx.isSome_first.mp hm
    obtain ⟨hfirst, hlast⟩ := hx.noSigns hm
    refine .inl ⟨fun _ => hfirst.trans hlast.symm, fun _ => ?_⟩
    by_cases hn : true ∈ n
    · rwa [merge_firstSign, merge_lastSign, if_neg hnone, if_pos (hy.isSome_first.mpr hn)] at hsigns
    · obtain ⟨hfirst', hlast'⟩ := hy.noSigns hn
      exact hfirst'.trans hlast'.symm

/-- The pair passes, and so does its merge with a third record: either no record is
incoherent, or the two of the pair hide each other. -/
theorem pair_accepts_iff {whole : Prop} (rest : Prop) (hx : Valid x start m)
    (hy : Valid y (after start m.length) n)
    (hwhole : (merge x y).bracketRecords ≠ [] → whole) :
    (((merge x y).bracketRecords ≠ [] → Coherent x ∧ Coherent y)
        ∧ (whole → Coherent (merge x y) ∧ rest))
      ↔ (whole → (Coherent x ∧ Coherent y) ∧ rest) ∨ Cancel x y ∧ (whole → rest) := by
  have hboth : Coherent x → Coherent y → Coherent (merge x y) := Coherent.merge hx hy
  have hcancel : Cancel x y → Coherent (merge x y) := fun h => h.coherent_merge hx hy
  have hempty : Cancel x y → (merge x y).bracketRecords = [] := by
    intro hall
    obtain ⟨hnx, hny, hcross⟩ := hall
    by_contra hne
    have hnilx := (hx.signs_of_incoherent hnx).2.1
    have hnily := (hy.signs_of_incoherent hny).2.1
    simpa [hnilx, hnily, hcross] using merge_brackets_ne_nil.mp hne
  constructor
  · intro hall
    obtain ⟨hpair, hthird⟩ := hall
    by_cases hw : whole
    · obtain ⟨hmerge, hrest⟩ := hthird hw
      by_cases hnil : (merge x y).bracketRecords = []
      · rcases coherent_of_merge hx hy hnil hmerge with h | h
        · exact .inl fun _ => ⟨h, hrest⟩
        · exact .inr ⟨h, fun _ => hrest⟩
      · exact .inl fun _ => ⟨hpair hnil, hrest⟩
    · exact .inl fun h => absurd h hw
  · intro h
    rcases h with h | ⟨h, hrest⟩
    · exact ⟨fun hne => (h (hwhole hne)).1, fun hw => ⟨hboth (h hw).1.1 (h hw).1.2, (h hw).2⟩⟩
    · exact ⟨fun hne => absurd (hempty h) hne, fun hw => ⟨hcancel h, hrest hw⟩⟩

/-! ## The two groupings -/

theorem merge_assoc_of_valid (hy : Valid y start n) (x z : CharacterRecord) :
    merge (merge x y) z = merge x (merge y z) := by
  have hmask : y.firstDeterminateNumerator = none → true ∉ n := by
    intro hnone hmem
    have hsome := hy.isSome_first.mpr hmem
    rw [hnone] at hsome
    cases hsome
  refine merge_assoc x y z (fun hnone => ?_) fun hnone => hy.noBrackets (hmask hnone)
  rw [hy.leading, hy.trailing]
  by_cases hne : n = []
  · rw [hne]
    rfl
  · rw [plot_of_not_mem start (hmask hnone) hne]

/-- **What the grouping to the left accepts.** -/
theorem acceptsLeft_iff (hx : Valid x start m) (hy : Valid y (after start m.length) n)
    (z : CharacterRecord) : AcceptsLeft x y z
    ↔ ((merge x y).bracketRecords ≠ [] → Coherent x ∧ Coherent y)
      ∧ ((merge (merge x y) z).bracketRecords ≠ [] → Coherent (merge x y) ∧ Coherent z) := by
  have hwhole : (merge x y).bracketRecords ≠ [] → Changes x y z := fun hne =>
    changes_iff.mpr (merge_brackets_ne_nil.mpr (.inl hne))
  rw [← changes_iff, pair_accepts_iff (Coherent z) hx hy hwhole, AcceptsLeft, Sound]
  constructor
  · intro h
    rcases h with h | ⟨hcancel, hz⟩
    · exact .inl fun hw => ⟨⟨(h hw).1, (h hw).2.1⟩, (h hw).2.2⟩
    · exact .inr ⟨hcancel, fun _ => hz⟩
  · intro h
    rcases h with h | ⟨hcancel, hz⟩
    · exact .inl fun hw => ⟨(h hw).1.1, (h hw).1.2, (h hw).2⟩
    · by_cases hw : Changes x y z
      · exact .inr ⟨hcancel, hz hw⟩
      · exact .inl fun h => absurd h hw

/-- **What the grouping to the right accepts.** -/
theorem acceptsRight_iff (x : CharacterRecord) (hy : Valid y start m)
    (hz : Valid z (after start m.length) n) : AcceptsRight x y z
    ↔ ((merge y z).bracketRecords ≠ [] → Coherent y ∧ Coherent z)
      ∧ ((merge x (merge y z)).bracketRecords ≠ [] → Coherent x ∧ Coherent (merge y z)) := by
  have hwhole : (merge y z).bracketRecords ≠ [] → Changes x y z := fun hne => by
    rw [changes_iff, merge_assoc_of_valid hy]
    exact merge_brackets_ne_nil.mpr (.inr (.inl hne))
  have hpair := pair_accepts_iff (Coherent x) hy hz hwhole
  rw [← merge_assoc_of_valid hy, ← changes_iff, AcceptsRight, Sound]
  simp only [and_comm (a := Coherent x)]
  rw [hpair]
  constructor
  · intro h
    rcases h with h | ⟨hcancel, hx⟩
    · exact .inl h
    · exact .inr ⟨hcancel, fun _ => hx⟩
  · intro h
    rcases h with h | ⟨hcancel, hx⟩
    · exact .inl h
    · by_cases hw : Changes x y z
      · exact .inr ⟨hcancel, hx hw⟩
      · exact .inl fun h => absurd h hw

end AttestedCompute.Dirichlet
