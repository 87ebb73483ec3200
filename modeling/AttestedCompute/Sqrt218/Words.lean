import AttestedCompute.Lib.Sha256
import AttestedCompute.Lib.Fallible

/-!
# Bytes and checked words

The checker gets a pointer and a length and reads big-endian words byte by byte. A read at
or past the length is undefined behaviour: it is the fault `outOfBounds`, which is not one
of the checker's statuses. Unsigned arithmetic wraps and is `UInt64` here.
-/

namespace AttestedCompute.Sqrt218

open Fallible (bind_ok pure_ok refuseIf Avoids avoids_ok avoids_error avoids_bind avoids_refuseIf)

/-- `tg_sq218_status` without its zero, which is success. -/
inductive Status where
  | badArgument
  | badFormat
  | outOfRange
  | overflow
  | proofRejected
  deriving DecidableEq, Repr

/-- How a call can fail: with a status, or by undefined behaviour. -/
inductive Fault where
  | status (s : Status)
  | outOfBounds
  deriving DecidableEq, Repr

abbrev Checked := Except Fault

/-- The range of `size_t`: at least the minimum of the language, at most 64 bits. -/
structure Platform where
  sizeMax : Nat
  minimum : 65535 ≤ sizeMax
  word : sizeMax < 2 ^ 64

/-- `(size_t)x` -/
def Platform.toSize (platform : Platform) (x : UInt64) : Nat := x.toNat % (platform.sizeMax + 1)

/-- The memory at a pointer and the length given with it, all of it readable. -/
structure Snapshot (platform : Platform) where
  bytes : Bytes
  length : Nat
  readable : length ≤ bytes.length
  size : length ≤ platform.sizeMax

variable {platform : Platform}

def readByte (snapshot : Snapshot platform) (i : Nat) : Checked UInt8 :=
  if i < snapshot.length then .ok (snapshot.bytes.at0 i) else .error .outOfBounds

/-- `tg_read_be16` -/
def readBe16 (snapshot : Snapshot platform) (p : Nat) : Checked UInt16 := do
  let b0 ← readByte snapshot p
  let b1 ← readByte snapshot (p + 1)
  pure ((b0.toUInt16 <<< 8) ||| b1.toUInt16)

/-- `tg_read_be32` -/
def readBe32 (snapshot : Snapshot platform) (p : Nat) : Checked UInt32 := do
  let b0 ← readByte snapshot p
  let b1 ← readByte snapshot (p + 1)
  let b2 ← readByte snapshot (p + 2)
  let b3 ← readByte snapshot (p + 3)
  pure ((b0.toUInt32 <<< 24) ||| (b1.toUInt32 <<< 16) ||| (b2.toUInt32 <<< 8) ||| b3.toUInt32)

/-- `tg_read_be64` -/
def readBe64 (snapshot : Snapshot platform) (p : Nat) : Checked UInt64 := do
  let b0 ← readByte snapshot p
  let b1 ← readByte snapshot (p + 1)
  let b2 ← readByte snapshot (p + 2)
  let b3 ← readByte snapshot (p + 3)
  let b4 ← readByte snapshot (p + 4)
  let b5 ← readByte snapshot (p + 5)
  let b6 ← readByte snapshot (p + 6)
  let b7 ← readByte snapshot (p + 7)
  pure ((b0.toUInt64 <<< 56) ||| (b1.toUInt64 <<< 48) ||| (b2.toUInt64 <<< 40)
    ||| (b3.toUInt64 <<< 32) ||| (b4.toUInt64 <<< 24) ||| (b5.toUInt64 <<< 16)
    ||| (b6.toUInt64 <<< 8) ||| b7.toUInt64)

/-- `tg_u64_add_checked` -/
def addChecked (a b : UInt64) : Option UInt64 :=
  let result := a + b
  if result < a then none else some result

/-- `tg_u64_mul_checked` -/
def mulChecked (a b : UInt64) : Option UInt64 :=
  if a ≠ 0 ∧ b > 0xffffffffffffffff / a then none else some (a * b)

/-- Go on with a value, or return a status. -/
def orStatus {α : Type} (value : Option α) (s : Status) : Checked α :=
  match value with
  | some a => .ok a
  | none => .error (.status s)

/-- Return a status when `bad` holds. -/
abbrev refuse (bad : Prop) [Decidable bad] (s : Status) : Checked Unit := refuseIf bad (.status s)

theorem orStatus_ok {α : Type} {value : Option α} {s : Status} {a : α} :
    orStatus value s = .ok a ↔ value = some a := by
  cases value with
  | none => simp [orStatus]
  | some b => simp [orStatus]

/-! ## Checked arithmetic is exact -/

theorem addChecked_eq_some {a b c : UInt64} :
    addChecked a b = some c ↔ a.toNat + b.toNat = c.toNat := by
  have ha := a.toNat_lt
  have hb := b.toNat_lt
  have hc := c.toNat_lt
  have hsum : (a + b).toNat = (a.toNat + b.toNat) % 2 ^ 64 := UInt64.toNat_add a b
  unfold addChecked
  dsimp only
  split
  · rename_i hlt
    rw [UInt64.lt_iff_toNat_lt, hsum] at hlt
    refine ⟨fun h => (by cases h), fun h => ?_⟩
    omega
  · rename_i hge
    rw [UInt64.lt_iff_toNat_lt, hsum, not_lt] at hge
    rw [Option.some.injEq, ← UInt64.toNat_inj, hsum]
    refine ⟨fun h => ?_, fun h => ?_⟩
    · omega
    · omega

theorem mulChecked_eq_some {a b c : UInt64} :
    mulChecked a b = some c ↔ a.toNat * b.toNat = c.toNat := by
  have hc := c.toNat_lt
  have hmul : (a * b).toNat = a.toNat * b.toNat % 2 ^ 64 := UInt64.toNat_mul a b
  have hdiv : (0xffffffffffffffff / a).toNat = (2 ^ 64 - 1) / a.toNat := UInt64.toNat_div _ a
  have hzero : a ≠ 0 ↔ 0 < a.toNat := by
    rw [Nat.pos_iff_ne_zero, ne_eq, ne_eq, ← UInt64.toNat_inj]
    rfl
  unfold mulChecked
  split
  · rename_i h
    obtain ⟨ha, hlt⟩ := h
    rw [gt_iff_lt, UInt64.lt_iff_toNat_lt, hdiv, Nat.div_lt_iff_lt_mul (hzero.mp ha), Nat.mul_comm]
      at hlt
    refine ⟨fun h => (by cases h), fun h => ?_⟩
    omega
  · rename_i h
    -- without the guard the product is small, or `a` is zero
    have hsmall : a.toNat * b.toNat < 2 ^ 64 := by
      by_cases ha : a ≠ 0
      · have hle := not_and.mp h ha
        rw [gt_iff_lt, UInt64.lt_iff_toNat_lt, hdiv, not_lt,
          Nat.le_div_iff_mul_le (hzero.mp ha), Nat.mul_comm] at hle
        omega
      · rw [not_not.mp ha]
        simp
    rw [Option.some.injEq, ← UInt64.toNat_inj, hmul, Nat.mod_eq_of_lt hsmall]

/-! ## Reads inside the snapshot -/

/-- A computation that reads nothing outside the snapshot. -/
abbrev Safe {α : Type} (x : Checked α) : Prop := Avoids .outOfBounds x

theorem safe_refuse (bad : Prop) [Decidable bad] (s : Status) : Safe (refuse bad s) :=
  avoids_refuseIf (by simp) bad

theorem safe_orStatus {α : Type} (value : Option α) (s : Status) : Safe (orStatus value s) := by
  cases value with
  | none => exact avoids_error (by simp)
  | some a => exact avoids_ok _ a

theorem readByte_eq {snapshot : Snapshot platform} {i : Nat} (h : i < snapshot.length) :
    readByte snapshot i = .ok (snapshot.bytes.at0 i) := if_pos h

/-- A big-endian number of the memory. -/
def field (bytes : Bytes) (i width : Nat) : Nat := Bytes.beValue ((bytes.drop i).take width)

theorem field_succ {bytes : Bytes} {i width : Nat} (h : i + width < bytes.length) :
    field bytes i (width + 1) = field bytes i width * 256 + (bytes.at0 (i + width)).toNat := by
  have hlt : width < (bytes.drop i).length := by rw [List.length_drop]; omega
  have hbyte : (bytes.drop i)[width] = bytes.at0 (i + width) := by
    rw [List.getElem_drop, Bytes.at0, List.getD_eq_getElem _ _ h]
  unfold field
  rw [List.take_succ_eq_append_getElem hlt, Bytes.beValue_append, hbyte]
  simp [Bytes.beValue_cons]

theorem field_zero (bytes : Bytes) (i : Nat) : field bytes i 0 = 0 := rfl

/-- One more byte below the bits of a word. -/
theorem or_byte (x k : Nat) (b : UInt8) :
    x * 2 ^ (k + 8) ||| b.toNat * 2 ^ k = (x * 256 + b.toNat) * 2 ^ k := by
  have hb : b.toNat * 2 ^ k < 2 ^ (k + 8) := by
    rw [Nat.pow_add, Nat.mul_comm (2 ^ k)]
    exact Nat.mul_lt_mul_of_pos_right b.toNat_lt (Nat.two_pow_pos k)
  rw [Nat.mul_comm x, ← Nat.two_pow_add_eq_or_of_lt hb, Nat.pow_add]
  ring

theorem toNat_shift (b : UInt8) {k : UInt64} (h : k.toNat ≤ 56) :
    (b.toUInt64 <<< k).toNat = b.toNat * 2 ^ k.toNat := by
  have hb := b.toNat_lt
  have hpow : 2 ^ k.toNat ≤ 2 ^ 56 := Nat.pow_le_pow_right (by decide) h
  have hle := Nat.mul_le_mul (Nat.le_of_lt_succ hb) hpow
  rw [UInt64.toNat_shiftLeft, UInt8.toNat_toUInt64, Nat.mod_eq_of_lt (by omega : k.toNat < 64),
    Nat.shiftLeft_eq, Nat.mod_eq_of_lt (by omega)]

/-- The word at a pointer, eight bytes at a time. -/
def be64 (bytes : Bytes) (p : Nat) : UInt64 :=
  ((bytes.at0 p).toUInt64 <<< 56) ||| ((bytes.at0 (p + 1)).toUInt64 <<< 48)
    ||| ((bytes.at0 (p + 2)).toUInt64 <<< 40) ||| ((bytes.at0 (p + 3)).toUInt64 <<< 32)
    ||| ((bytes.at0 (p + 4)).toUInt64 <<< 24) ||| ((bytes.at0 (p + 5)).toUInt64 <<< 16)
    ||| ((bytes.at0 (p + 6)).toUInt64 <<< 8) ||| (bytes.at0 (p + 7)).toUInt64

theorem readBe64_eq {snapshot : Snapshot platform} {p : Nat} (h : p + 8 ≤ snapshot.length) :
    readBe64 snapshot p = .ok (be64 snapshot.bytes p) := by
  unfold readBe64
  rw [readByte_eq (by omega), readByte_eq (by omega), readByte_eq (by omega), readByte_eq (by omega),
    readByte_eq (by omega), readByte_eq (by omega), readByte_eq (by omega), readByte_eq (by omega)]
  rfl

/-- **A word is the big-endian number of its bytes.** -/
theorem toNat_be64 {bytes : Bytes} {p : Nat} (h : p + 8 ≤ bytes.length) :
    (be64 bytes p).toNat = field bytes p 8 := by
  rw [field_succ (by omega), field_succ (by omega), field_succ (by omega), field_succ (by omega),
    field_succ (by omega), field_succ (by omega), field_succ (by omega), field_succ (by omega),
    field_zero, Nat.zero_mul, Nat.zero_add, Nat.add_zero]
  unfold be64
  simp only [UInt64.toNat_or]
  rw [toNat_shift _ (by decide), toNat_shift _ (by decide), toNat_shift _ (by decide),
    toNat_shift _ (by decide), toNat_shift _ (by decide), toNat_shift _ (by decide),
    toNat_shift _ (by decide), UInt8.toNat_toUInt64]
  have hlast := or_byte
    (((((((bytes.at0 p).toNat * 256 + (bytes.at0 (p + 1)).toNat) * 256
      + (bytes.at0 (p + 2)).toNat) * 256 + (bytes.at0 (p + 3)).toNat) * 256
      + (bytes.at0 (p + 4)).toNat) * 256 + (bytes.at0 (p + 5)).toNat) * 256
      + (bytes.at0 (p + 6)).toNat) 0 (bytes.at0 (p + 7))
  rw [Nat.pow_zero, Nat.mul_one, Nat.mul_one] at hlast
  rw [← hlast, ← or_byte _ 8, ← or_byte _ 16, ← or_byte _ 24, ← or_byte _ 32, ← or_byte _ 40,
    ← or_byte _ 48]
  rfl

def be32 (bytes : Bytes) (p : Nat) : UInt32 :=
  ((bytes.at0 p).toUInt32 <<< 24) ||| ((bytes.at0 (p + 1)).toUInt32 <<< 16)
    ||| ((bytes.at0 (p + 2)).toUInt32 <<< 8) ||| (bytes.at0 (p + 3)).toUInt32

theorem readBe32_eq {snapshot : Snapshot platform} {p : Nat} (h : p + 4 ≤ snapshot.length) :
    readBe32 snapshot p = .ok (be32 snapshot.bytes p) := by
  unfold readBe32
  rw [readByte_eq (by omega), readByte_eq (by omega), readByte_eq (by omega), readByte_eq (by omega)]
  rfl

theorem toNat_be32 {bytes : Bytes} {p : Nat} (h : p + 4 ≤ bytes.length) :
    (be32 bytes p).toNat = field bytes p 4 := by
  rw [field_succ (by omega), field_succ (by omega), field_succ (by omega), field_succ (by omega),
    field_zero, Nat.add_zero, be32, Sha256.toNat_be32]
  omega

def be16 (bytes : Bytes) (p : Nat) : UInt16 :=
  ((bytes.at0 p).toUInt16 <<< 8) ||| (bytes.at0 (p + 1)).toUInt16

theorem readBe16_eq {snapshot : Snapshot platform} {p : Nat} (h : p + 2 ≤ snapshot.length) :
    readBe16 snapshot p = .ok (be16 snapshot.bytes p) := by
  unfold readBe16
  rw [readByte_eq (by omega), readByte_eq (by omega)]
  rfl

theorem toNat_be16 {bytes : Bytes} {p : Nat} (h : p + 2 ≤ bytes.length) :
    (be16 bytes p).toNat = field bytes p 2 := by
  have hb := (bytes.at0 p).toNat_lt
  have hcount : (8 : UInt16).toNat % 16 = 8 := rfl
  have hhigh : ((bytes.at0 p).toUInt16 <<< 8).toNat = (bytes.at0 p).toNat * 2 ^ 8 := by
    rw [UInt16.toNat_shiftLeft, UInt8.toNat_toUInt16, hcount, Nat.shiftLeft_eq,
      Nat.mod_eq_of_lt (by omega)]
  have hword := or_byte (bytes.at0 p).toNat 0 (bytes.at0 (p + 1))
  rw [Nat.pow_zero, Nat.mul_one, Nat.mul_one, Nat.zero_add] at hword
  rw [field_succ (by omega), field_succ (by omega), field_zero, Nat.zero_mul, Nat.zero_add,
    Nat.add_zero, be16, UInt16.toNat_or, hhigh, UInt8.toNat_toUInt16, hword]

end AttestedCompute.Sqrt218
