import AttestedCompute.Lib.ByteString

/-!
# Packed binary records

A format is a list of fields: little-endian integers of a fixed width, raw bytes of a fixed width and
padding. Packing refuses an integer that does not fit, cuts or pads raw bytes with zeros and writes
padding as zeros; unpacking reads the fields in order and skips padding. The two are inverse on raw
bytes of the right width, except that unpacking forgets what the padding held.
-/

namespace PackedStruct

inductive Field where
  | unsigned (width : Nat)
  | signed (width : Nat)
  | raw (width : Nat)
  | pad (width : Nat)
  deriving DecidableEq, Repr

abbrev Format := List Field

def Field.size : Field → Nat
  | .unsigned width | .signed width | .raw width | .pad width => width

def size (format : Format) : Nat := (format.map Field.size).sum

/-- The values of a record, one for each field that is not padding. -/
@[reducible] def Record : Format → Type
  | [] => Unit
  | .unsigned _ :: format => Int × Record format
  | .signed _ :: format => Int × Record format
  | .raw _ :: format => Bytes × Record format
  | .pad _ :: format => Record format

/-- `n` as `width` little-endian bytes. -/
def ofNatLE (width n : Nat) : Bytes := (Bytes.ofNatBE width n).reverse

def packUnsigned (width : Nat) (value : Int) : Option Bytes :=
  if 0 ≤ value ∧ value < 256 ^ width then some (ofNatLE width value.toNat) else none

/-- Two's complement. -/
def packSigned (width : Nat) (value : Int) : Option Bytes :=
  if -(256 ^ width) ≤ 2 * value ∧ 2 * value < 256 ^ width then
    some (ofNatLE width (value % 256 ^ width).toNat)
  else none

def readSigned (width : Nat) (bytes : Bytes) : Int :=
  if 2 * bytes.leValue < 256 ^ width then bytes.leValue else bytes.leValue - 256 ^ width

/-- Raw bytes, cut or padded with zeros. -/
def fit (width : Nat) (bytes : Bytes) : Bytes :=
  bytes.take width ++ List.replicate (width - bytes.length) 0

def pack : (format : Format) → Record format → Option Bytes
  | [], _ => some []
  | .unsigned width :: format, (value, rest) => do
      pure ((← packUnsigned width value) ++ (← pack format rest))
  | .signed width :: format, (value, rest) => do
      pure ((← packSigned width value) ++ (← pack format rest))
  | .raw width :: format, (bytes, rest) => do pure (fit width bytes ++ (← pack format rest))
  | .pad width :: format, rest => do pure (List.replicate width 0 ++ (← pack format rest))

/-- The fields of a record at the front of a byte string. -/
def read : (format : Format) → Bytes → Record format
  | [], _ => ()
  | .unsigned width :: format, bytes =>
      ((Bytes.leValue (bytes.take width) : Int), read format (bytes.drop width))
  | .signed width :: format, bytes =>
      (readSigned width (bytes.take width), read format (bytes.drop width))
  | .raw width :: format, bytes => (bytes.take width, read format (bytes.drop width))
  | .pad width :: format, bytes => read format (bytes.drop width)

/-- The integers of a record are in the range of their fields. -/
def Fits : (format : Format) → Record format → Prop
  | [], _ => True
  | .unsigned width :: format, (value, rest) => (0 ≤ value ∧ value < 256 ^ width) ∧ Fits format rest
  | .signed width :: format, (value, rest) =>
      (-(256 ^ width) ≤ 2 * value ∧ 2 * value < 256 ^ width) ∧ Fits format rest
  | .raw _ :: format, (_, rest) => Fits format rest
  | .pad _ :: format, rest => Fits format rest

/-- Pack, or refuse with `e`. -/
def packOr {ε : Type} (e : ε) (format : Format) (record : Record format) : Except ε Bytes :=
  match pack format record with
  | some bytes => .ok bytes
  | none => .error e

/-- The bytes of a record with its padding zeroed. -/
def clearPads : Format → Bytes → Bytes
  | [], _ => []
  | .pad width :: format, bytes => List.replicate width 0 ++ clearPads format (bytes.drop width)
  | field :: format, bytes => bytes.take field.size ++ clearPads format (bytes.drop field.size)

/-! ## Integers -/

@[simp] theorem length_ofNatLE (width n : Nat) : (ofNatLE width n).length = width := by
  simp [ofNatLE]

theorem leValue_ofNatLE {width n : Nat} (h : n < 256 ^ width) : (ofNatLE width n).leValue = n := by
  rw [Bytes.leValue, ofNatLE, List.reverse_reverse, Bytes.beValue_ofNatBE_of_lt h]

theorem ofNatLE_leValue (bytes : Bytes) : ofNatLE bytes.length bytes.leValue = bytes := by
  have h := Bytes.ofNatBE_beValue bytes.reverse
  rw [List.length_reverse] at h
  rw [ofNatLE, Bytes.leValue, h, List.reverse_reverse]

theorem leValue_lt (bytes : Bytes) : bytes.leValue < 256 ^ bytes.length := by
  have h := Bytes.beValue_lt bytes.reverse
  rwa [List.length_reverse] at h

theorem packUnsigned_eq_some {width : Nat} {value : Int} {bytes : Bytes} :
    packUnsigned width value = some bytes ↔ bytes.length = width ∧ value = bytes.leValue := by
  unfold packUnsigned
  constructor
  · intro h
    split at h
    · rename_i hrange
      obtain ⟨n, rfl⟩ := Int.eq_ofNat_of_zero_le hrange.1
      have hn : n < 256 ^ width := by exact_mod_cast hrange.2
      obtain rfl := Option.some.inj h
      exact ⟨length_ofNatLE _ _, by rw [Int.toNat_natCast, leValue_ofNatLE hn]⟩
    · cases h
  · intro h
    obtain ⟨rfl, rfl⟩ := h
    have hlt := leValue_lt bytes
    rw [if_pos ⟨Int.natCast_nonneg _, by exact_mod_cast hlt⟩, Int.toNat_natCast, ofNatLE_leValue]

theorem packSigned_eq_some {width : Nat} {value : Int} {bytes : Bytes} :
    packSigned width value = some bytes ↔
      bytes.length = width ∧ value = readSigned width bytes := by
  have hpos : (0 : Int) < 256 ^ width := by positivity
  unfold packSigned readSigned
  constructor
  · intro h
    split at h
    · rename_i hrange
      obtain rfl := Option.some.inj h
      have hnonneg := Int.emod_nonneg value hpos.ne'
      have hlt := Int.emod_lt_of_pos value hpos
      have hvalue : ((ofNatLE width (value % 256 ^ width).toNat).leValue : Int) =
          value % 256 ^ width := by
        rw [leValue_ofNatLE (by zify; rw [Int.toNat_of_nonneg hnonneg]; exact hlt),
          Int.toNat_of_nonneg hnonneg]
      refine ⟨length_ofNatLE _ _, ?_⟩
      zify
      rw [hvalue]
      -- a negative value is stored as its remainder, which is too large for a positive one
      by_cases hneg : 0 ≤ value
      · rw [Int.emod_eq_of_lt hneg (by omega), if_pos hrange.2]
      · have hmod : value % 256 ^ width = value + 256 ^ width := by
          rw [← Int.add_emod_right, Int.emod_eq_of_lt (by omega) (by omega)]
        rw [hmod, if_neg (by omega), Int.add_sub_cancel]
    · cases h
  · intro h
    obtain ⟨rfl, rfl⟩ := h
    have hlt : (bytes.leValue : Int) < 256 ^ bytes.length := by exact_mod_cast leValue_lt bytes
    have hback : ofNatLE bytes.length (bytes.leValue : Int).toNat = bytes := by
      rw [Int.toNat_natCast, ofNatLE_leValue]
    split
    · rename_i hsmall
      zify at hsmall
      rw [if_pos ⟨by omega, hsmall⟩, Int.emod_eq_of_lt (by omega) hlt, hback]
    · rename_i hlarge
      zify at hlarge
      rw [if_pos ⟨by omega, by omega⟩, Int.sub_emod_right, Int.emod_eq_of_lt (by omega) hlt, hback]

theorem length_fit (width : Nat) (bytes : Bytes) : (fit width bytes).length = width := by
  rw [fit, List.length_append, List.length_take, List.length_replicate]
  omega

theorem fit_eq {width : Nat} {bytes : Bytes} (h : bytes.length = width) : fit width bytes = bytes := by
  rw [fit, List.take_of_length_le h.le, h, Nat.sub_self, List.replicate_zero, List.append_nil]

/-! ## Records -/

/-- Raw bytes have the width of their field. -/
def Exact : (format : Format) → Record format → Prop
  | [], _ => True
  | .unsigned _ :: format, (_, rest) => Exact format rest
  | .signed _ :: format, (_, rest) => Exact format rest
  | .raw width :: format, (bytes, rest) => bytes.length = width ∧ Exact format rest
  | .pad _ :: format, rest => Exact format rest

/-- The padding of a byte string is zero. -/
def PadsZero : Format → Bytes → Prop
  | [], _ => True
  | .pad width :: format, bytes =>
      bytes.take width = List.replicate width 0 ∧ PadsZero format (bytes.drop width)
  | field :: format, bytes => PadsZero format (bytes.drop field.size)

theorem size_cons (field : Field) (format : Format) :
    size (field :: format) = field.size + size format := by
  rw [size, List.map_cons, List.sum_cons]
  rfl

/-- A byte string cut at a width. -/
theorem exists_append_iff {width rest : Nat} (P Q : Bytes → Prop) (bytes : Bytes) :
    (∃ front : Bytes, (front.length = width ∧ P front) ∧
      ∃ back : Bytes, (back.length = rest ∧ Q back) ∧ front ++ back = bytes) ↔
      bytes.length = width + rest ∧ P (bytes.take width) ∧ Q (bytes.drop width) := by
  constructor
  · intro h
    obtain ⟨front, ⟨rfl, hfront⟩, back, ⟨rfl, hback⟩, rfl⟩ := h
    rw [List.take_left, List.drop_left]
    exact ⟨List.length_append, hfront, hback⟩
  · intro h
    obtain ⟨hlength, hfront, hback⟩ := h
    refine ⟨_, ⟨?_, hfront⟩, _, ⟨?_, hback⟩, List.take_append_drop width bytes⟩
    · rw [List.length_take]
      omega
    · rw [List.length_drop]
      omega

theorem exists_append_fixed_iff {rest : Nat} (front : Bytes) (Q : Bytes → Prop) {bytes : Bytes} :
    (∃ back : Bytes, (back.length = rest ∧ Q back) ∧ front ++ back = bytes) ↔
      bytes.length = front.length + rest ∧ bytes.take front.length = front ∧
        Q (bytes.drop front.length) := by
  rw [← exists_append_iff (fun bytes => bytes = front) Q]
  constructor
  · intro h
    exact ⟨front, ⟨rfl, rfl⟩, h⟩
  · intro h
    obtain ⟨_, ⟨_, rfl⟩, h⟩ := h
    exact h

/-- **Packing, in full.** A byte string is what packing makes of a record exactly when it has the
size of the format, its padding is zero and it reads as that record. -/
theorem pack_eq_some {format : Format} {record : Record format} (hexact : Exact format record)
    {bytes : Bytes} :
    pack format record = some bytes ↔
      bytes.length = size format ∧ PadsZero format bytes ∧ read format bytes = record := by
  induction format generalizing bytes with
  | nil =>
      rw [pack, Option.some_inj, size, List.map_nil, List.sum_nil, List.length_eq_zero_iff]
      exact ⟨fun h => ⟨h.symm, trivial, rfl⟩, fun h => h.1.symm⟩
  | cons field format ih =>
      -- every field is written in front of the rest and read from the front
      cases field with
      | unsigned width =>
          obtain ⟨value, rest⟩ := record
          simp only [pack, bind, Option.bind_eq_some_iff, pure, Option.some_inj, ih hexact,
            packUnsigned_eq_some]
          rw [exists_append_iff (fun front => value = front.leValue)
            (fun back => PadsZero format back ∧ read format back = rest), size_cons, PadsZero, read,
            Prod.mk.injEq, eq_comm (a := value)]
          exact and_congr_right fun _ => and_left_comm
          intro width h
          cases h
      | signed width =>
          obtain ⟨value, rest⟩ := record
          simp only [pack, bind, Option.bind_eq_some_iff, pure, Option.some_inj, ih hexact,
            packSigned_eq_some]
          rw [exists_append_iff (fun front => value = readSigned width front)
            (fun back => PadsZero format back ∧ read format back = rest), size_cons, PadsZero, read,
            Prod.mk.injEq, eq_comm (a := value)]
          exact and_congr_right fun _ => and_left_comm
          intro width h
          cases h
      | raw width =>
          obtain ⟨raw, rest⟩ := record
          obtain ⟨rfl, hexact⟩ := hexact
          have hfit : fit raw.length raw = raw := fit_eq rfl
          simp only [pack, bind, Option.bind_eq_some_iff, pure, Option.some_inj, ih hexact, hfit]
          rw [exists_append_fixed_iff raw
            (fun back => PadsZero format back ∧ read format back = rest), size_cons, PadsZero, read,
            Prod.mk.injEq]
          exact and_congr_right fun _ => and_left_comm
          intro width h
          cases h
      | pad width =>
          have hzeros : (List.replicate width (0 : UInt8)).length = width := List.length_replicate
          simp only [pack, bind, Option.bind_eq_some_iff, pure, Option.some_inj, ih hexact]
          rw [exists_append_fixed_iff (List.replicate width 0)
            (fun back => PadsZero format back ∧ read format back = record), size_cons, PadsZero,
            read, hzeros, and_assoc]
          rfl

theorem length_pack {format : Format} {record : Record format} {bytes : Bytes}
    (h : pack format record = some bytes) : bytes.length = size format := by
  induction format generalizing bytes with
  | nil =>
      cases h
      rfl
  | cons field format ih =>
      cases field with
      | unsigned width =>
          simp only [pack, bind, Option.bind_eq_some_iff, pure, Option.some_inj,
            packUnsigned_eq_some] at h
          obtain ⟨front, ⟨hfront, _⟩, back, hback, rfl⟩ := h
          rw [List.length_append, hfront, ih hback, size_cons]
          rfl
      | signed width =>
          simp only [pack, bind, Option.bind_eq_some_iff, pure, Option.some_inj,
            packSigned_eq_some] at h
          obtain ⟨front, ⟨hfront, _⟩, back, hback, rfl⟩ := h
          rw [List.length_append, hfront, ih hback, size_cons]
          rfl
      | raw width =>
          simp only [pack, bind, Option.bind_eq_some_iff, pure, Option.some_inj] at h
          obtain ⟨back, hback, rfl⟩ := h
          rw [List.length_append, length_fit, ih hback, size_cons]
          rfl
      | pad width =>
          simp only [pack, bind, Option.bind_eq_some_iff, pure, Option.some_inj] at h
          obtain ⟨back, hback, rfl⟩ := h
          rw [List.length_append, List.length_replicate, ih hback, size_cons]
          rfl

theorem exact_read {format : Format} {bytes : Bytes} (h : bytes.length = size format) :
    Exact format (read format bytes) := by
  induction format generalizing bytes with
  | nil => trivial
  | cons field format ih =>
      rw [size_cons] at h
      have hrest : (bytes.drop field.size).length = size format := by
        rw [List.length_drop]
        omega
      cases field with
      | unsigned width => exact ih hrest
      | signed width => exact ih hrest
      | pad width => exact ih hrest
      | raw width =>
          have hwidth : width ≤ bytes.length := by
            have : (Field.raw width).size = width := rfl
            omega
          exact ⟨by rw [List.length_take]; omega, ih hrest⟩

theorem packOr_ok {ε : Type} {e : ε} {format : Format} {record : Record format} {bytes : Bytes} :
    packOr e format record = .ok bytes ↔ pack format record = some bytes := by
  unfold packOr
  cases pack format record with
  | none => exact ⟨fun h => (by cases h), fun h => (by cases h)⟩
  | some packed => rw [Except.ok.injEq, Option.some_inj]

/-- Packing what was read zeroes the padding and nothing else. -/
theorem pack_read_clear {format : Format} {bytes : Bytes} (h : bytes.length = size format) :
    pack format (read format bytes) = some (clearPads format bytes) := by
  induction format generalizing bytes with
  | nil => rfl
  | cons field format ih =>
      rw [size_cons] at h
      have hfront : (bytes.take field.size).length = field.size := by
        rw [List.length_take]
        omega
      have hrest : (bytes.drop field.size).length = size format := by
        rw [List.length_drop]
        omega
      have hih := ih hrest
      cases field with
      | unsigned width =>
          have hpack : packUnsigned width (Bytes.leValue (bytes.take width)) =
              some (bytes.take width) := packUnsigned_eq_some.mpr ⟨hfront, rfl⟩
          rw [read, pack, hpack]
          exact congrArg (Option.bind · fun back => some (bytes.take width ++ back)) hih
      | signed width =>
          have hpack : packSigned width (readSigned width (bytes.take width)) =
              some (bytes.take width) := packSigned_eq_some.mpr ⟨hfront, rfl⟩
          rw [read, pack, hpack]
          exact congrArg (Option.bind · fun back => some (bytes.take width ++ back)) hih
      | raw width =>
          have hfit : fit width (bytes.take width) = bytes.take width := fit_eq hfront
          rw [read, pack, hfit]
          exact congrArg (Option.bind · fun back => some (bytes.take width ++ back)) hih
      | pad width =>
          exact congrArg (Option.bind · fun back => some (List.replicate width 0 ++ back)) hih

theorem exists_packUnsigned {width : Nat} {value : Int} :
    (∃ bytes, packUnsigned width value = some bytes) ↔ 0 ≤ value ∧ value < 256 ^ width := by
  unfold packUnsigned
  by_cases hrange : 0 ≤ value ∧ value < 256 ^ width
  · rw [if_pos hrange]
    exact ⟨fun _ => hrange, fun _ => ⟨_, rfl⟩⟩
  · rw [if_neg hrange]
    exact ⟨fun h => h.elim fun _ h => (by cases h), fun h => absurd h hrange⟩

theorem exists_packSigned {width : Nat} {value : Int} :
    (∃ bytes, packSigned width value = some bytes) ↔
      -(256 ^ width) ≤ 2 * value ∧ 2 * value < 256 ^ width := by
  unfold packSigned
  by_cases hrange : -(256 ^ width) ≤ 2 * value ∧ 2 * value < 256 ^ width
  · rw [if_pos hrange]
    exact ⟨fun _ => hrange, fun _ => ⟨_, rfl⟩⟩
  · rw [if_neg hrange]
    exact ⟨fun h => h.elim fun _ h => (by cases h), fun h => absurd h hrange⟩

/-- **Packing succeeds exactly when the integers fit.** -/
theorem exists_pack {format : Format} {record : Record format} :
    (∃ bytes, pack format record = some bytes) ↔ Fits format record := by
  induction format with
  | nil => exact ⟨fun _ => trivial, fun _ => ⟨[], rfl⟩⟩
  | cons field format ih =>
      cases field with
      | unsigned width =>
          obtain ⟨value, rest⟩ := record
          simp only [pack, bind, Option.bind_eq_some_iff, pure, Option.some_inj, Fits, ← ih,
            ← exists_packUnsigned]
          constructor
          · intro h
            obtain ⟨_, front, hfront, back, hback, _⟩ := h
            exact ⟨⟨front, hfront⟩, back, hback⟩
          · intro h
            obtain ⟨⟨front, hfront⟩, back, hback⟩ := h
            exact ⟨_, front, hfront, back, hback, rfl⟩
      | signed width =>
          obtain ⟨value, rest⟩ := record
          simp only [pack, bind, Option.bind_eq_some_iff, pure, Option.some_inj, Fits, ← ih,
            ← exists_packSigned]
          constructor
          · intro h
            obtain ⟨_, front, hfront, back, hback, _⟩ := h
            exact ⟨⟨front, hfront⟩, back, hback⟩
          · intro h
            obtain ⟨⟨front, hfront⟩, back, hback⟩ := h
            exact ⟨_, front, hfront, back, hback, rfl⟩
      | raw width =>
          obtain ⟨raw, rest⟩ := record
          simp only [pack, bind, Option.bind_eq_some_iff, pure, Option.some_inj, Fits, ← ih]
          exact ⟨fun ⟨_, back, hback, _⟩ => ⟨back, hback⟩, fun ⟨back, hback⟩ => ⟨_, back, hback, rfl⟩⟩
      | pad width =>
          simp only [pack, bind, Option.bind_eq_some_iff, pure, Option.some_inj, Fits, ← ih]
          exact ⟨fun ⟨_, back, hback, _⟩ => ⟨back, hback⟩, fun ⟨back, hback⟩ => ⟨_, back, hback, rfl⟩⟩

theorem pack_getD {format : Format} {record : Record format} (h : Fits format record) :
    pack format record = some ((pack format record).getD []) := by
  obtain ⟨bytes, hbytes⟩ := exists_pack.mpr h
  rw [hbytes, Option.getD_some]

theorem fits_read {format : Format} {bytes : Bytes} (h : bytes.length = size format) :
    Fits format (read format bytes) := exists_pack.mp ⟨_, pack_read_clear h⟩

theorem length_clearPads {format : Format} {bytes : Bytes} (h : bytes.length = size format) :
    (clearPads format bytes).length = size format := length_pack (pack_read_clear h)

/-- **Reading what was packed.** -/
theorem read_of_pack {format : Format} {record : Record format} {bytes : Bytes}
    (hexact : Exact format record) (h : pack format record = some bytes) :
    read format bytes = record := ((pack_eq_some hexact).mp h).2.2

/-- Packed bytes are clear. -/
theorem clearPads_of_pack {format : Format} {record : Record format} {bytes : Bytes}
    (hexact : Exact format record) (h : pack format record = some bytes) :
    clearPads format bytes = bytes := by
  have hclear := pack_read_clear (length_pack h)
  rw [read_of_pack hexact h, h] at hclear
  exact (Option.some.inj hclear).symm

end PackedStruct
