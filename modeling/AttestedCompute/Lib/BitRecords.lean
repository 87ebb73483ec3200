import AttestedCompute.Lib.BitWords

/-!
# Records of a fixed number of bits

Numbers of `width` bits written one after the other into words of `w` bits, at whatever offset they
fall. Reading a record back gives its number, and words whose padding is zero are the records that
are read from them: the packed form is unique.
-/

namespace BitWords

variable {w n : Nat}

/-- Write the bits of `value` at `offset`, over zeros. -/
def setBits (w : Nat) (words : List Nat) (offset width value : Nat) : List Nat :=
  (List.range width).foldl
    (fun words b => if value.testBit b then set w words (offset + b) else words) words

/-- Read `width` bits at `offset`. -/
def getBits (w : Nat) (words : List Nat) (offset width : Nat) : Nat :=
  (List.range width).foldl (fun value b => value ||| ((bit w words (offset + b)).toNat <<< b)) 0

/-- The records, one after the other. -/
def packRecords (w width : Nat) (values : List Nat) : List Nat :=
  values.zipIdx.foldl (fun words p => setBits w words (p.2 * width) width p.1)
    (empty w (values.length * width))

/-! ## One record -/

theorem testBit_getBits (words : List Nat) (offset width b : Nat) :
    (getBits w words offset width).testBit b = (decide (b < width) && bit w words (offset + b)) := by
  induction width with
  | zero => simp [getBits]
  | succ width ih =>
      have hstep : getBits w words offset (width + 1) =
          getBits w words offset width ||| ((bit w words (offset + width)).toNat <<< width) := by
        rw [getBits, List.range_succ, List.foldl_append]
        rfl
      rw [hstep, Nat.testBit_or, ih, Nat.testBit_shiftLeft]
      rcases lt_trichotomy b width with hb | rfl | hb
      · simp [hb, Nat.lt_succ_of_lt hb, Nat.not_le.mpr hb]
      · cases hbit : bit w words (offset + b) <;> simp
      · have hzero : ((bit w words (offset + width)).toNat).testBit (b - width) = false := by
          refine Nat.testBit_lt_two_pow ?_
          have hone := Bool.toNat_lt (bit w words (offset + width))
          exact hone.trans_le (Nat.pow_le_pow_right (Nat.zero_lt_succ 1) (by omega : 1 ≤ b - width))
        simp [hzero, Nat.not_lt.mpr hb.le, Nat.not_lt.mpr (Nat.succ_le_of_lt hb)]

theorem getBits_lt (words : List Nat) (offset width : Nat) : getBits w words offset width < 2 ^ width := by
  refine Nat.lt_pow_two_of_testBit _ fun b hb => ?_
  rw [testBit_getBits, decide_eq_false (Nat.not_lt.mpr hb), Bool.false_and]

/-- Writing a record adds the positions of its bits. -/
theorem packs_setBits (hw : 0 < w) {words : List Nat} {p : Nat → Prop} (h : Packs w n words p)
    {offset width : Nat} (hfit : offset + width ≤ n) (value : Nat) :
    Packs w n (setBits w words offset width value) fun i =>
      p i ∨ offset ≤ i ∧ i < offset + width ∧ value.testBit (i - offset) := by
  induction width with
  | zero =>
      refine h.congr fun i _ => ⟨Or.inl, fun h => ?_⟩
      rcases h with h | h
      · exact h
      · omega
  | succ width ih =>
      have hprev := ih (by omega)
      have hstep : setBits w words offset (width + 1) value =
          if value.testBit width then set w (setBits w words offset width value) (offset + width)
          else setBits w words offset width value := by
        rw [setBits, List.range_succ, List.foldl_append]
        rfl
      rw [hstep]
      by_cases hbit : value.testBit width
      · rw [if_pos hbit]
        refine (packs_set hw hprev (by omega : offset + width < n)).congr fun i _ => ?_
        constructor
        · intro h
          rcases h with (h | ⟨h1, h2, h3⟩) | rfl
          · exact Or.inl h
          · exact Or.inr ⟨h1, by omega, h3⟩
          · exact Or.inr ⟨by omega, by omega, by rw [Nat.add_sub_cancel_left]; exact hbit⟩
        · intro h
          rcases h with h | ⟨h1, h2, h3⟩
          · exact Or.inl (Or.inl h)
          · by_cases hi : i = offset + width
            · exact Or.inr hi
            · exact Or.inl (Or.inr ⟨h1, by omega, h3⟩)
      · rw [if_neg hbit]
        refine hprev.congr fun i _ => ?_
        constructor
        · intro h
          rcases h with h | ⟨h1, h2, h3⟩
          · exact Or.inl h
          · exact Or.inr ⟨h1, by omega, h3⟩
        · intro h
          rcases h with h | ⟨h1, h2, h3⟩
          · exact Or.inl h
          · refine Or.inr ⟨h1, ?_, h3⟩
            by_contra hge
            have hi : i - offset = width := by omega
            rw [hi] at h3
            exact hbit h3

/-! ## All records -/

theorem packs_foldl_setBits (hw : 0 < w) {width : Nat} (hwidth : 0 < width) (values : List Nat)
    (hn : values.length * width ≤ n) :
    Packs w n (values.zipIdx.foldl (fun words p => setBits w words (p.2 * width) width p.1)
      (empty w n)) fun i => (values.getD (i / width) 0).testBit (i % width) := by
  induction values using List.reverseRecOn with
  | nil => exact (packs_empty w n).congr fun i _ => by simp
  | append_singleton values value ih =>
      rw [List.length_append, List.length_singleton, Nat.succ_mul] at hn
      rw [List.zipIdx_append, List.foldl_append]
      refine (packs_setBits hw (ih (by omega)) (by simpa using hn) value).congr fun i _ => ?_
      rw [Nat.zero_add]
      have hdiv := Nat.div_add_mod i width
      have hmod := Nat.mod_lt i hwidth
      -- a position lies before, in or after the new record
      rcases lt_trichotomy (i / width) values.length with hi | hi | hi
      · have hlt : i < values.length * width := (Nat.div_lt_iff_lt_mul hwidth).mp hi
        rw [List.getD_append _ _ _ _ hi]
        exact ⟨fun h => h.resolve_right fun h => absurd h.1 (Nat.not_le.mpr hlt), Or.inl⟩
      · have hle : values.length * width ≤ i := (Nat.le_div_iff_mul_le hwidth).mp hi.ge
        have hoff : i - values.length * width = i % width := by
          rw [hi, Nat.mul_comm] at hdiv
          omega
        rw [hi, List.getD_eq_default _ _ le_rfl, List.getD_append_right _ _ _ _ le_rfl, Nat.sub_self,
          hoff]
        simp only [Nat.zero_testBit, Bool.false_eq_true, false_or, List.getD_cons_zero]
        exact ⟨fun h => h.2.2, fun h => ⟨hle, by omega, h⟩⟩
      · have hge : (values.length + 1) * width ≤ i := (Nat.le_div_iff_mul_le hwidth).mp hi
        rw [Nat.succ_mul] at hge
        rw [List.getD_eq_default _ _ hi.le, List.getD_eq_default _ _ (by simpa using hi)]
        simp only [Nat.zero_testBit, Bool.false_eq_true, false_or]
        exact ⟨fun h => by omega, fun h => h.elim⟩

/-- Bit `i` of the records is a bit of record `i / width`. -/
theorem packs_packRecords (hw : 0 < w) {width : Nat} (hwidth : 0 < width) (values : List Nat) :
    Packs w (values.length * width) (packRecords w width values) fun i =>
      (values.getD (i / width) 0).testBit (i % width) :=
  packs_foldl_setBits hw hwidth values le_rfl

/-- **Reading a record back.** -/
theorem getBits_packRecords (hw : 0 < w) {width : Nat} (hwidth : 0 < width) {values : List Nat}
    (hvalues : ∀ value ∈ values, value < 2 ^ width) {k : Nat} (hk : k < values.length) :
    getBits w (packRecords w width values) (k * width) width = values.getD k 0 := by
  refine Nat.eq_of_testBit_eq fun b => ?_
  have hvalue : values.getD k 0 < 2 ^ width := by
    rw [List.getD_eq_getElem _ _ hk]
    exact hvalues _ (List.getElem_mem hk)
  rw [testBit_getBits]
  by_cases hb : b < width
  · have hdiv : (k * width + b) / width = k := by
      rw [Nat.mul_comm, Nat.mul_add_div hwidth, Nat.div_eq_of_lt hb, Nat.add_zero]
    have hmod : (k * width + b) % width = b := by
      rw [Nat.mul_comm, Nat.mul_add_mod, Nat.mod_eq_of_lt hb]
    have hlt : k * width + b < values.length * width := by
      have := Nat.mul_le_mul_right width (Nat.succ_le_of_lt hk)
      rw [Nat.succ_mul] at this
      omega
    rw [decide_eq_true hb, Bool.true_and, Bool.eq_iff_iff,
      (packs_packRecords hw hwidth values).bits, hdiv, hmod]
    exact ⟨fun h => h.2, fun h => ⟨hlt, h⟩⟩
  · rw [decide_eq_false hb, Bool.false_and]
    exact (Nat.testBit_lt_two_pow (hvalue.trans_le
      (Nat.pow_le_pow_right (Nat.zero_lt_succ 1) (Nat.not_lt.mp hb)))).symm

/-- **Words with zero padding are the records that are read from them.** -/
theorem packRecords_getBits (hw : 0 < w) {width count : Nat} (hwidth : 0 < width)
    {words : List Nat} (hlength : words.length = (count * width + w - 1) / w)
    (hbound : ∀ x ∈ words, x < 2 ^ w) (hpadding : ∀ i, count * width ≤ i → bit w words i = false) :
    packRecords w width ((List.range count).map fun k => getBits w words (k * width) width) =
      words := by
  have hcount : ((List.range count).map fun k => getBits w words (k * width) width).length = count := by
    rw [List.length_map, List.length_range]
  have hwords : Packs w (count * width) words fun i => bit w words i = true := by
    refine ⟨hlength, hbound, fun i => ⟨fun h => ⟨?_, h⟩, fun h => h.2⟩⟩
    by_contra hi
    rw [hpadding i (Nat.not_lt.mp hi)] at h
    cases h
  have hrecords := packs_packRecords hw hwidth
    ((List.range count).map fun k => getBits w words (k * width) width)
  rw [hcount] at hrecords
  refine hrecords.eq_of_iff hw hwords fun i hi => ?_
  have hdiv : i / width < count := (Nat.div_lt_iff_lt_mul hwidth).mpr hi
  have hread : ((List.range count).map fun k => getBits w words (k * width) width).getD
      (i / width) 0 = getBits w words (i / width * width) width := by
    simp [List.getD_eq_getElem?_getD, hdiv]
  rw [hread, testBit_getBits, decide_eq_true (Nat.mod_lt i hwidth), Bool.true_and, Nat.mul_comm,
    Nat.div_add_mod]

end BitWords
