import AttestedCompute.CompactV3.Page

/-!
# One payload for the states of a page

Decoding gives back the states that were encoded. The other way, the writer makes of decoded states
the payload that was decoded with the reserved bytes of its debug brackets zeroed: these six bytes
of a bracket record are skipped by the reader, and nothing else is.
-/

namespace AttestedCompute.CompactV3

open Fallible PackedStruct BitWords

/-! ## The dense part -/

theorem nats_map_ofNat {words : List Nat} (h : ∀ x ∈ words, x < 256) :
    Bytes.nats (words.map UInt8.ofNat) = words := by
  rw [Bytes.nats, List.map_map]
  exact (List.map_congr_left fun x hx => UInt8.toNat_ofNat_of_lt' (h x hx)).trans (List.map_id _)

theorem map_ofNat_nats (raw : Bytes) : (Bytes.nats raw).map UInt8.ofNat = raw := by
  rw [Bytes.nats, List.map_map]
  exact (List.map_congr_left fun x _ => UInt8.ofNat_toNat).trans (List.map_id _)

theorem nats_lt (raw : Bytes) : ∀ x ∈ Bytes.nats raw, x < 2 ^ 8 := by
  intro x hx
  obtain ⟨byte, _, rfl⟩ := List.mem_map.mp hx
  exact byte.toNat_lt

theorem getD_last {raw : Bytes} (hne : raw ≠ []) :
    (Bytes.nats raw).getD (raw.length - 1) 0 = (raw.getLast hne).toNat := by
  have hpos := List.length_pos_of_ne_nil hne
  rw [List.getLast_eq_getElem, List.getD_eq_getElem _ _ (by rw [Bytes.length_nats]; omega)]
  exact List.getElem_map _

/-- The padding check says that every bit past the records is zero. -/
theorem checkPadding_ok {raw : Bytes} {usedBits : Nat} (hlength : raw.length = (usedBits + 7) / 8) :
    checkPadding raw usedBits = .ok () ↔
      ∀ i, usedBits ≤ i → bit 8 (Bytes.nats raw) i = false := by
  simp only [checkPadding, bind_ok, failIf_ok, not_lt, not_and, not_exists, not_not]
  have hnats : (Bytes.nats raw).length = raw.length := Bytes.length_nats raw
  constructor
  · intro h i hi
    obtain ⟨_, _, hlast⟩ := h
    by_cases hend : raw.length ≤ i / 8
    · rw [bit, List.getD_eq_default _ _ (by omega), Nat.zero_testBit]
    · have hne : raw ≠ [] := List.ne_nil_of_length_pos (by omega)
      have hzero := hlast (by omega) (raw.getLast hne) (List.getLast?_eq_getLast_of_ne_nil hne)
      have hindex : i / 8 = raw.length - 1 := by omega
      have hoff : i % 8 = usedBits % 8 + (i % 8 - usedBits % 8) := by omega
      rw [bit, hindex, getD_last hne, hoff, ← Nat.testBit_shiftRight, hzero, Nat.zero_testBit]
  · intro h
    refine ⟨(), by omega, fun hmod last hlast => ?_⟩
    have hne : raw ≠ [] := by
      intro hnil
      rw [hnil] at hlast
      cases hlast
    have hpos := List.length_pos_of_ne_nil hne
    obtain rfl : raw.getLast hne = last := by
      rw [List.getLast?_eq_getLast_of_ne_nil hne] at hlast
      exact Option.some.inj hlast
    refine Nat.eq_of_testBit_eq fun b => ?_
    rw [Nat.testBit_shiftRight, Nat.zero_testBit]
    by_cases hb : usedBits % 8 + b < 8
    · have hbit := h (8 * (raw.length - 1) + (usedBits % 8 + b)) (by omega)
      rw [bit_word (Nat.zero_lt_succ 7) hb, getD_last hne] at hbit
      exact hbit
    · have hlt : (raw.getLast hne).toNat < 2 ^ 8 := (raw.getLast hne).toNat_lt
      exact Nat.testBit_lt_two_pow
        (hlt.trans_le (Nat.pow_le_pow_right (Nat.zero_lt_succ 1) (Nat.not_lt.mp hb)))

theorem length_densePart (recordWidth : Nat) (hwidth : 0 < recordWidth) (values : List Nat) :
    (densePart recordWidth values).length = packedBytes values.length recordWidth := by
  rw [densePart, List.length_map, (packs_packRecords (Nat.zero_lt_succ 7) hwidth values).length]
  rfl

theorem nats_densePart {recordWidth : Nat} (hwidth : 0 < recordWidth) (values : List Nat) :
    Bytes.nats (densePart recordWidth values) = packRecords 8 recordWidth values :=
  nats_map_ofNat (packs_packRecords (Nat.zero_lt_succ 7) hwidth values).bound

/-- The writer's own padding check passes. -/
theorem checkPadding_densePart {recordWidth : Nat} (hwidth : 0 < recordWidth) (values : List Nat) :
    checkPadding (densePart recordWidth values) (values.length * recordWidth) = .ok () := by
  refine (checkPadding_ok (length_densePart recordWidth hwidth values)).mpr fun i hi => ?_
  rw [nats_densePart hwidth, Bool.eq_false_iff]
  intro hbit
  have := ((packs_packRecords (Nat.zero_lt_succ 7) hwidth values).bits i).mp hbit
  omega

/-- Reading the dense part gives the records back. -/
theorem getBits_densePart {recordWidth : Nat} (hwidth : 0 < recordWidth) {values : List Nat}
    (hvalues : ∀ value ∈ values, value < 2 ^ recordWidth) :
    ((List.range values.length).map fun k =>
      getBits 8 (Bytes.nats (densePart recordWidth values)) (k * recordWidth) recordWidth) =
        values := by
  rw [nats_densePart hwidth]
  refine List.ext_getElem (by simp) fun k hk _ => ?_
  rw [List.length_map, List.length_range] at hk
  rw [List.getElem_map, List.getElem_range,
    getBits_packRecords (Nat.zero_lt_succ 7) hwidth hvalues hk, List.getD_eq_getElem _ _ hk]

/-- A dense part with zero padding is written from the records that are read from it. -/
theorem densePart_getBits {recordWidth count : Nat} (hwidth : 0 < recordWidth) {raw : Bytes}
    (hlength : raw.length = packedBytes count recordWidth)
    (hpadding : checkPadding raw (count * recordWidth) = .ok ()) :
    densePart recordWidth ((List.range count).map fun k =>
      getBits 8 (Bytes.nats raw) (k * recordWidth) recordWidth) = raw := by
  rw [densePart, packRecords_getBits (Nat.zero_lt_succ 7) hwidth
    ((Bytes.length_nats raw).trans hlength) (nats_lt raw) ((checkPadding_ok hlength).mp hpadding),
    map_ofNat_nats]

/-! ## Dense records -/

/-- Four flags and a count in one number. -/
def packFlags (a b c d : Bool) (count : Nat) : Nat :=
  a.toNat ||| b.toNat <<< 1 ||| c.toNat <<< 2 ||| d.toNat <<< 3 ||| count <<< 4

theorem testBit_packFlags (a b c d : Bool) (count i : Nat) :
    (packFlags a b c d count).testBit i =
      if i = 0 then a else if i = 1 then b else if i = 2 then c else if i = 3 then d
        else count.testBit (i - 4) := by
  have hbit : ∀ (x : Bool) (k : Nat), (x.toNat).testBit k = (decide (k = 0) && x) := by
    intro x k
    cases x <;> cases k <;> simp [Nat.testBit_succ]
  simp only [packFlags, Nat.testBit_or, Nat.testBit_shiftLeft, hbit]
  match i with
  | 0 => simp
  | 1 => simp
  | 2 => simp
  | 3 => simp
  | i + 4 => simp

theorem packFlags_shift (a b c d : Bool) (count : Nat) : packFlags a b c d count >>> 4 = count := by
  refine Nat.eq_of_testBit_eq fun i => ?_
  rw [Nat.testBit_shiftRight, testBit_packFlags, if_neg (by omega), if_neg (by omega),
    if_neg (by omega), if_neg (by omega), Nat.add_sub_cancel_left]

/-- A number is the flags of its low four bits and the count above them. -/
theorem packFlags_testBit (value : Nat) :
    packFlags (value.testBit 0) (value.testBit 1) (value.testBit 2) (value.testBit 3) (value >>> 4) =
      value := by
  refine Nat.eq_of_testBit_eq fun i => ?_
  rw [testBit_packFlags, Nat.testBit_shiftRight]
  match i with
  | 0 => simp
  | 1 => simp
  | 2 => simp
  | 3 => simp
  | i + 4 => simp [Nat.add_comm]

theorem and_two_pow_ne_zero (value k : Nat) : value &&& 2 ^ k ≠ 0 ↔ value.testBit k = true := by
  rw [Nat.and_two_pow]
  cases value.testBit k <;> simp

theorem and_six_ne_zero (value : Nat) :
    value &&& 6 ≠ 0 ↔ value.testBit 1 = true ∨ value.testBit 2 = true := by
  have hsix : value &&& 6 = (value &&& 2 ^ 1) ||| (value &&& 2 ^ 2) := by
    rw [← Nat.and_or_distrib_left]
    rfl
  rw [hsix, ne_eq, Nat.or_eq_zero_iff, not_and_or, ← ne_eq, ← ne_eq, and_two_pow_ne_zero,
    and_two_pow_ne_zero]

/-- The signs and the count fit the determinate flag. -/
def DenseRecord.Consistent (d : DenseRecord) : Prop :=
  if d.hasDeterminate then (d.firstSign = -1 ∨ d.firstSign = 1) ∧ (d.lastSign = -1 ∨ d.lastSign = 1)
  else d.firstSign = 0 ∧ d.lastSign = 0 ∧ d.transition = 0

/-- The number that holds a dense record. -/
def DenseRecord.value (d : DenseRecord) : Nat :=
  packFlags d.hasDeterminate (0 < d.firstSign) (0 < d.lastSign) d.hasSparse d.transition

theorem decodeDense_eq (value : Nat) :
    decodeDense value =
      if value.testBit 0 then
        .ok ⟨true, if value.testBit 1 then 1 else -1, if value.testBit 2 then 1 else -1,
          value.testBit 3, value >>> 4⟩
      else if value.testBit 1 ∨ value.testBit 2 ∨ value >>> 4 ≠ 0 then
        .error (.failed "v3 absent-determinate record has sign or count bits")
      else .ok ⟨false, 0, 0, value.testBit 3, value >>> 4⟩ := by
  have h0 : value &&& 1 ≠ 0 ↔ value.testBit 0 = true := and_two_pow_ne_zero value 0
  have h1 : value &&& 2 ≠ 0 ↔ value.testBit 1 = true := and_two_pow_ne_zero value 1
  have h2 : value &&& 4 ≠ 0 ↔ value.testBit 2 = true := and_two_pow_ne_zero value 2
  have h3 : value &&& 8 ≠ 0 ↔ value.testBit 3 = true := and_two_pow_ne_zero value 3
  have hsix : (value &&& 6 ≠ 0 ∨ value >>> 4 ≠ 0) ↔
      (value.testBit 1 ∨ value.testBit 2 ∨ value >>> 4 ≠ 0) := by
    rw [and_six_ne_zero, or_assoc]
  simp only [decodeDense, h0, h1, h2, h3, hsix, Bool.decide_eq_true]
  by_cases hzero : value.testBit 0 = true
  · rw [if_pos hzero, if_pos hzero]
    rfl
  · rw [if_neg hzero, if_neg hzero]
    by_cases hbad : value.testBit 1 = true ∨ value.testBit 2 = true ∨ value >>> 4 ≠ 0
    · rw [if_pos hbad, failIf, refuseIf, if_pos hbad]
      rfl
    · rw [if_neg hbad, failIf, refuseIf, if_neg hbad]
      rfl

theorem sign_eq {x : Int} (h : x = -1 ∨ x = 1) : (if 0 < x then 1 else -1) = x := by
  rcases h with rfl | rfl <;> rfl

/-- **Dense records and numbers.** Decoding inverts `value` on consistent records. -/
theorem decodeDense_ok {value : Nat} {d : DenseRecord} :
    decodeDense value = .ok d ↔ d.Consistent ∧ d.value = value := by
  rw [decodeDense_eq]
  constructor
  · intro h
    have hsign : ∀ b : Bool, decide (0 < if b = true then (1 : Int) else -1) = b := by
      intro b
      cases b <;> rfl
    split at h
    · rename_i hzero
      cases h
      refine ⟨?_, ?_⟩
      · simp only [DenseRecord.Consistent, if_true]
        constructor <;> split <;> simp
      · simp only [DenseRecord.value, hsign]
        rw [← hzero, packFlags_testBit]
    · rename_i hzero
      split at h
      · cases h
      · rename_i hbad
        cases h
        rw [not_or, not_or, not_not] at hbad
        refine ⟨⟨rfl, rfl, hbad.2.2⟩, ?_⟩
        have hback := packFlags_testBit value
        rw [Bool.eq_false_iff.mpr hzero, Bool.eq_false_iff.mpr hbad.1,
          Bool.eq_false_iff.mpr hbad.2.1] at hback
        exact hback
  · intro h
    obtain ⟨hconsistent, rfl⟩ := h
    obtain ⟨hasDeterminate, firstSign, lastSign, hasSparse, transition⟩ := d
    simp only [DenseRecord.value, testBit_packFlags, packFlags_shift]
    cases hasDeterminate with
    | true =>
        simp only [DenseRecord.Consistent, if_true] at hconsistent
        simp [sign_eq hconsistent.1, sign_eq hconsistent.2]
    | false =>
        obtain ⟨hfirst, hlast, htransition⟩ := hconsistent
        dsimp only at hfirst hlast htransition
        subst hfirst hlast htransition
        simp

end AttestedCompute.CompactV3
