import AttestedCompute.Ladder.Check
import Mathlib.Data.Nat.Count

/-!
# Counting sign changes a byte at a time

`pt21_transition_count` looks at the bitmap eight samples at a time: the changes inside a
byte are the set bits of `x ^ (x >> 1)` below the top one, and the change into the next byte
is compared by hand. What it counts is what a scan over the adjacent pairs counts.
-/

namespace AttestedCompute.Ladder

/-- The sign changes among the first `samples` samples. -/
def signChanges (bitmap : Bytes) (samples : Nat) : Nat :=
  Nat.count (fun j => bitAt bitmap j ≠ bitAt bitmap (j + 1)) (samples - 1)

/-- The samples are all that a count of sign changes depends on. -/
theorem signChanges_congr {bitmap other : Bytes} {samples : Nat}
    (h : ∀ j, j < samples → bitAt other j = bitAt bitmap j) :
    signChanges other samples = signChanges bitmap samples := by
  unfold signChanges
  rw [Nat.count_eq_card_filter_range, Nat.count_eq_card_filter_range]
  congr 1
  refine Finset.filter_congr fun j hj => ?_
  have hlt : j < samples - 1 := Finset.mem_range.mp hj
  rw [h j (by omega), h (j + 1) (by omega)]

/-! ## Bits of a byte -/

theorem bitAt_eq (bitmap : Bytes) (index : Nat) :
    bitAt bitmap index = ((bitmap.at0 (index / 8)).toNat.testBit (index % 8)).toNat := by
  have hlow : index &&& 7 = index % 8 := Nat.and_two_pow_sub_one_eq_mod index 3
  have hbyte : index >>> 3 = index / 8 := Nat.shiftRight_eq_div_pow index 3
  unfold bitAt
  rw [hlow, hbyte, Nat.and_one_is_mod, Nat.testBit_eq_decide_div_mod_eq,
    Nat.shiftRight_eq_div_pow]
  rcases Nat.mod_two_eq_zero_or_one ((bitmap.at0 (index / 8)).toNat / 2 ^ (index % 8)) with h | h
  · rw [h]; rfl
  · rw [h]; rfl

theorem bitAt_byte (bitmap : Bytes) (k : Nat) {b : Nat} (hb : b < 8) :
    bitAt bitmap (8 * k + b) = ((bitmap.at0 k).toNat.testBit b).toNat := by
  rw [bitAt_eq, Nat.mul_add_mod, Nat.mod_eq_of_lt hb, Nat.mul_add_div (by decide),
    Nat.div_eq_of_lt hb, Nat.add_zero]

/-- The table holds the number of set bits. -/
theorem popcountTable_eq : ∀ x, x < 256 →
    (popcountTable.getD x 0).toNat = Nat.count (fun b => x.testBit b = true) 8 := by
  decide +kernel

/-- Below the top bit, `x ^ (x >> 1)` marks the bits that differ from the next one. -/
theorem testBit_inner (current : UInt8) {b : Nat} (hb : b < 7) :
    ((current ^^^ (current >>> 1)) &&& 0x7F).toNat.testBit b
      = (current.toNat.testBit b ^^ current.toNat.testBit (b + 1)) := by
  have hmask : (0x7F : UInt8).toNat.testBit b = true := by
    have hcases : b = 0 ∨ b = 1 ∨ b = 2 ∨ b = 3 ∨ b = 4 ∨ b = 5 ∨ b = 6 := by omega
    rcases hcases with rfl | rfl | rfl | rfl | rfl | rfl | rfl <;> rfl
  have hshift : (current >>> 1).toNat = current.toNat >>> 1 := by
    rw [UInt8.toNat_shiftRight]
    rfl
  rw [UInt8.toNat_and, UInt8.toNat_xor, hshift, Nat.testBit_and, hmask, Bool.and_true,
    Nat.testBit_xor, Nat.testBit_shiftRight, Nat.add_comm 1 b]

/-- The mask clears the top bit. -/
theorem testBit_inner_top (current : UInt8) :
    ((current ^^^ (current >>> 1)) &&& 0x7F).toNat.testBit 7 = false := by
  rw [UInt8.toNat_and, Nat.testBit_and, show (0x7F : UInt8).toNat.testBit 7 = false from rfl,
    Bool.and_false]

theorem toNat_ne_iff (x y : Bool) : x.toNat ≠ y.toNat ↔ (x ^^ y) = true := by
  cases x <;> cases y <;> decide

/-- The top bit of one byte against the low bit of the next, as the C masks them. -/
theorem carry_ne_iff (bitmap : Bytes) (k : Nat) :
    ((bitmap.at0 k).toUInt32 >>> 7) &&& 1 ≠ (bitmap.at0 (k + 1)).toUInt32 &&& 1
      ↔ bitAt bitmap (8 * k + 7) ≠ bitAt bitmap (8 * k + 7 + 1) := by
  have htop : (((bitmap.at0 k).toUInt32 >>> 7) &&& 1).toNat = bitAt bitmap (8 * k + 7) := by
    rw [bitAt_byte bitmap k (by decide), UInt32.toNat_and, UInt32.toNat_shiftRight,
      UInt8.toNat_toUInt32, Nat.testBit_eq_decide_div_mod_eq]
    change (bitmap.at0 k).toNat >>> 7 &&& 1 = _
    rw [Nat.and_one_is_mod, Nat.shiftRight_eq_div_pow]
    rcases Nat.mod_two_eq_zero_or_one ((bitmap.at0 k).toNat / 2 ^ 7) with h | h
    · rw [h]; rfl
    · rw [h]; rfl
  have hlow : ((bitmap.at0 (k + 1)).toUInt32 &&& 1).toNat = bitAt bitmap (8 * k + 7 + 1) := by
    rw [show 8 * k + 7 + 1 = 8 * (k + 1) + 0 by omega, bitAt_byte bitmap (k + 1) (by decide),
      UInt32.toNat_and, UInt8.toNat_toUInt32, Nat.testBit_zero]
    change (bitmap.at0 (k + 1)).toNat &&& 1 = _
    rw [Nat.and_one_is_mod]
    rcases Nat.mod_two_eq_zero_or_one (bitmap.at0 (k + 1)).toNat with h | h
    · rw [h]; rfl
    · rw [h]; rfl
  rw [ne_eq, ← UInt32.toNat_inj, htop, hlow]

/-! ## One byte, the body and the tail -/

/-- A neighbouring pair with different signs. -/
abbrev Changes (bitmap : Bytes) (j : Nat) : Prop := bitAt bitmap j ≠ bitAt bitmap (j + 1)

/-- **One byte counts the changes that start in it.** -/
theorem byteTransitions_eq (bitmap : Bytes) (k : Nat) :
    (byteTransitions bitmap k).toNat = Nat.count (fun b => Changes bitmap (8 * k + b)) 8 := by
  have hinside : ∀ b, b < 7 →
      (((bitmap.at0 k ^^^ (bitmap.at0 k >>> 1)) &&& 0x7F).toNat.testBit b = true
        ↔ Changes bitmap (8 * k + b)) := by
    intro b hb
    rw [testBit_inner _ hb, Changes, bitAt_byte bitmap k (by omega), Nat.add_assoc,
      bitAt_byte bitmap k (by omega), toNat_ne_iff]
  have hpop : (popcountTable.getD ((bitmap.at0 k ^^^ (bitmap.at0 k >>> 1)) &&& 0x7F).toNat 0).toNat
      = Nat.count (fun b => Changes bitmap (8 * k + b)) 7 := by
    rw [popcountTable_eq _ (UInt8.toNat_lt _), Nat.count_succ, testBit_inner_top,
      if_neg Bool.false_ne_true, Nat.add_zero, Nat.count_eq_card_filter_range,
      Nat.count_eq_card_filter_range]
    congr 1
    exact Finset.filter_congr fun b hb => hinside b (Finset.mem_range.mp hb)
  have hseven : Nat.count (fun b => Changes bitmap (8 * k + b)) 7 ≤ 7 := Nat.count_le _
  unfold byteTransitions
  rw [Nat.count_succ, UInt32.toNat_add, UInt8.toNat_toUInt32, hpop]
  by_cases hcarry : Changes bitmap (8 * k + 7)
  · rw [if_pos hcarry, if_pos ((carry_ne_iff bitmap k).mpr hcarry), UInt32.toNat_one]
    exact Nat.mod_eq_of_lt (by omega)
  · rw [if_neg hcarry, if_neg (mt (carry_ne_iff bitmap k).mp hcarry), UInt32.toNat_zero]
    exact Nat.mod_eq_of_lt (by omega)

/-- The byte loop counts the changes that start in the first `n` bytes. -/
theorem body_eq (bitmap : Bytes) {n : Nat} (hn : 8 * n < 2 ^ 32) :
    ((List.range n).foldl (fun total index => total + byteTransitions bitmap index) 0).toNat
      = Nat.count (Changes bitmap) (8 * n) := by
  induction n with
  | zero => rfl
  | succ n ih =>
      rw [List.range_succ, List.foldl_append, List.foldl_cons, List.foldl_nil, UInt32.toNat_add,
        ih (by omega), byteTransitions_eq, Nat.mul_succ, Nat.count_add]
      have hbody : Nat.count (Changes bitmap) (8 * n) ≤ 8 * n := Nat.count_le _
      have hbyte : Nat.count (fun b => Changes bitmap (8 * n + b)) 8 ≤ 8 := Nat.count_le _
      exact Nat.mod_eq_of_lt (by omega)

/-- The pairwise loop continues a count. -/
theorem tail_eq (bitmap : Bytes) {start n : Nat} {body : UInt32}
    (hbody : body.toNat = Nat.count (Changes bitmap) start) (hn : start + n < 2 ^ 32) :
    ((List.range' start n).foldl
        (fun total index => if bitAt bitmap index ≠ bitAt bitmap (index + 1) then total + 1 else total)
        body).toNat
      = Nat.count (Changes bitmap) (start + n) := by
  induction n with
  | zero => exact hbody
  | succ n ih =>
      rw [List.range'_concat, List.foldl_append, List.foldl_cons, List.foldl_nil, Nat.one_mul,
        ← Nat.add_assoc, Nat.count_succ]
      have hle : Nat.count (Changes bitmap) (start + n) ≤ start + n := Nat.count_le _
      by_cases hchange : Changes bitmap (start + n)
      · rw [if_pos hchange, if_pos hchange, UInt32.toNat_add, ih (by omega), UInt32.toNat_one]
        exact Nat.mod_eq_of_lt (by omega)
      · rw [if_neg hchange, if_neg hchange, ih (by omega)]
        rfl

/-- The `uint32_t` total holds the number of sign changes. -/
theorem toNat_transitionCount (bitmap : Bytes) {samples : Nat} (hword : samples < 2 ^ 32) :
    (transitionCount bitmap samples).toNat = signChanges bitmap samples := by
  have hbytes : (samples - 1) >>> 3 = (samples - 1) / 8 := Nat.shiftRight_eq_div_pow _ 3
  have hstart : ((samples - 1) / 8) <<< 3 = 8 * ((samples - 1) / 8) := by
    rw [Nat.shiftLeft_eq, Nat.mul_comm]
  unfold transitionCount signChanges
  dsimp only
  rw [hbytes, hstart, tail_eq bitmap (body_eq bitmap (by omega)) (by omega),
    show 8 * ((samples - 1) / 8) + (samples - 1 - 8 * ((samples - 1) / 8)) = samples - 1 by omega]

/-- **The byte-parallel count is the pairwise count.** A sample count is a C `unsigned`. Nothing
past the last sample enters it: not the padding of the bitmap, nor the bytes that follow. -/
theorem transitionCount_exact (bitmap : Bytes) {samples : Nat} (hpos : 1 ≤ samples)
    (hword : samples < 2 ^ 32) (hfit : samples ≤ 8 * bitmap.length) :
    (transitionCount bitmap samples).toNat
        = ((List.range (samples - 1)).filter fun j => bitAt bitmap j ≠ bitAt bitmap (j + 1)).length
      ∧ (∀ other : Bytes, (∀ j, j < samples → bitAt other j = bitAt bitmap j) →
          transitionCount other samples = transitionCount bitmap samples)
      ∧ ∀ rest : Bytes, transitionCount (bitmap ++ rest) samples = transitionCount bitmap samples := by
  obtain ⟨pairs, rfl⟩ : ∃ pairs, samples = pairs + 1 := ⟨samples - 1, by omega⟩
  have hsame : ∀ other : Bytes, (∀ j, j < pairs + 1 → bitAt other j = bitAt bitmap j) →
      transitionCount other (pairs + 1) = transitionCount bitmap (pairs + 1) := by
    intro other h
    rw [← UInt32.toNat_inj, toNat_transitionCount other hword, toNat_transitionCount bitmap hword]
    exact signChanges_congr h
  refine ⟨?_, hsame, fun rest => hsame _ fun j hj => ?_⟩
  · rw [toNat_transitionCount bitmap hword, signChanges, Nat.count, List.countP_eq_length_filter]
  · -- sample `j` lies in byte `j / 8` of the bitmap
    have hbyte : j / 8 < bitmap.length := by omega
    rw [bitAt_eq, bitAt_eq, Bytes.at0, Bytes.at0, List.getD_append _ _ _ _ hbyte]

/-- Three samples of one byte: the two changes among them, not the changes past them. -/
theorem transitionCount_exact_byte :
    (transitionCount [0xAA] 3).toNat = 2
      ∧ transitionCount [0xAA, 0xFF] 3 = transitionCount [0xAA] 3 :=
  ⟨(transitionCount_exact [0xAA] (by decide) (by decide) (by decide)).1,
    (transitionCount_exact [0xAA] (by decide) (by decide) (by decide)).2.2 [0xFF]⟩

end AttestedCompute.Ladder
