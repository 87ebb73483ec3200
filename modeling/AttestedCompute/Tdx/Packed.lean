import AttestedCompute.Lib.ByteString

/-!
# Packed byte strings and the accessors of a TDX v4 quote

The verifier that Lean runs carries a quote as one big-endian number and a byte
count, and reads a field with a shift and a mask. This file models that
representation (`PackedBytes`) and the accessors over it (`TdxQuoteV4`), and says
once what a field is: the value of the byte slice it names (`field_ofBytes`).
-/

namespace AttestedCompute.Tdx

/-- Big-endian packing of a byte list into one natural number. -/
def packBytes : List Nat → Nat
  | [] => 0
  | byte :: rest => byte * 256 ^ rest.length + packBytes rest

/-- An exact byte string carried as one big-endian natural number plus its length. -/
structure PackedBytes where
  packed : Nat
  byteCount : Nat
  deriving DecidableEq, Repr

namespace PackedBytes

/-- The packed form of a byte string. -/
def ofBytes (bytes : Bytes) : PackedBytes := ⟨packBytes bytes.nats, bytes.length⟩

/-- The big-endian value of the `width`-byte field at `start`. -/
def field (bytes : PackedBytes) (start width : Nat) : Nat :=
  Nat.land (Nat.shiftRight bytes.packed (8 * (bytes.byteCount - start - width)))
    (2 ^ (8 * width) - 1)

def byte (bytes : PackedBytes) (index : Nat) : Nat := bytes.field index 1

def leUInt16 (bytes : PackedBytes) (start : Nat) : Nat :=
  bytes.byte start + 256 * bytes.byte (start + 1)

def leUInt32 (bytes : PackedBytes) (start : Nat) : Nat :=
  bytes.byte start + 256 * bytes.byte (start + 1) + 65536 * bytes.byte (start + 2)
    + 16777216 * bytes.byte (start + 3)

end PackedBytes

/-- A number as exactly `byteWidth` bytes of lowercase hexadecimal. -/
def hexOfNat (byteWidth value : Nat) : String :=
  String.ofList ((List.range (2 * byteWidth)).map fun index =>
    Bytes.hexDigit (value / 16 ^ (2 * byteWidth - 1 - index) % 16))

/-! ## The accessors -/

namespace TdxQuoteV4

def reportBodyOffset : Nat := 48
def reportBodySize : Nat := 584
def minimumByteCount : Nat := reportBodyOffset + reportBodySize
def mrConfigIdOffset : Nat := reportBodyOffset + 184
def mrTdOffset : Nat := reportBodyOffset + 136
def reportDataOffset : Nat := reportBodyOffset + 520

def version (quote : PackedBytes) : Nat := quote.leUInt16 0

def teeType (quote : PackedBytes) : Nat := quote.leUInt32 4

/-- The 48-byte `mrtd` measurement, as a natural number. -/
def mrTd (quote : PackedBytes) : Nat := quote.field mrTdOffset 48

/-- The 48-byte `mrconfigid` measurement, as a natural number. -/
def mrConfigId (quote : PackedBytes) : Nat := quote.field mrConfigIdOffset 48

/-- The first 32 bytes of the report data. -/
def reportDataStatement (quote : PackedBytes) : Nat := quote.field reportDataOffset 32

/-- The last 32 bytes of the report data. -/
def reportDataTail (quote : PackedBytes) : Nat := quote.field (reportDataOffset + 32) 32

def reportDataStatementHex (quote : PackedBytes) : String :=
  hexOfNat 32 (reportDataStatement quote)

def mrConfigIdHex (quote : PackedBytes) : String := hexOfNat 48 (mrConfigId quote)

/-- The tag byte `01`, the 32-byte compose hash, and fifteen zero bytes. -/
def expectedMrConfigIdHex (composeHash : String) : String :=
  "01" ++ composeHash ++ "000000000000000000000000000000"

def wellFormed (quote : PackedBytes) : Bool :=
  decide (minimumByteCount ≤ quote.byteCount) && version quote == 4 && teeType quote == 0x81

def quoteBindsCompose (quote : PackedBytes) (composeHash : String) : Bool :=
  mrConfigIdHex quote == expectedMrConfigIdHex composeHash

def quoteBindsStatement (quote : PackedBytes) (digest : String) : Bool :=
  reportDataStatementHex quote == digest && reportDataTail quote == 0

end TdxQuoteV4

/-! ## What a field is -/

theorem packBytes_eq (ds : List Nat) : packBytes ds = Positional.value 256 ds := by
  induction ds with
  | nil => rfl
  | cons d ds ih => rw [packBytes, ih, Positional.value_cons]

namespace PackedBytes

/-- **A field of the packed form is the value of the slice it names.** -/
theorem field_ofBytes {bytes : Bytes} {start width : Nat} (h : start + width ≤ bytes.length) :
    (ofBytes bytes).field start width = Bytes.beValue ((bytes.drop start).take width) := by
  have hpow : ∀ n : Nat, (256 : Nat) ^ n = 2 ^ (8 * n) := by
    intro n
    rw [pow_mul]
    norm_num
  have hmask : ∀ x, Nat.land x (2 ^ (8 * width) - 1) = x % 256 ^ width := by
    intro x
    rw [hpow]
    exact Nat.and_two_pow_sub_one_eq_mod x (8 * width)
  have hshift : ∀ x n, Nat.shiftRight x (8 * n) = x / 256 ^ n := by
    intro x n
    rw [hpow]
    exact Nat.shiftRight_eq_div_pow x (8 * n)
  rw [Bytes.beValue_slice h, field, hmask, hshift]
  show packBytes bytes.nats / _ % _ = _
  rw [packBytes_eq]
  rfl

end PackedBytes

/-- Spelling the value of a byte string in hexadecimal spells the byte string. -/
theorem hexOfNat_beValue {bytes : Bytes} {width : Nat} (h : bytes.length = width) :
    hexOfNat width (Bytes.beValue bytes) = bytes.hex := by
  unfold hexOfNat Bytes.hex Bytes.hexChars
  rw [Bytes.nibbles_eq_digits, h, Positional.digits_eq_map_range, List.map_map]
  rfl

end AttestedCompute.Tdx
