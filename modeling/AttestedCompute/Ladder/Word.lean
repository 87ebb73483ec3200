import AttestedCompute.Lib.Fallible
import AttestedCompute.Lib.Sha256

/-!
# Words, two's complement and hashing in the ladder checker

The level-0 checker decodes big-endian words byte by byte, does its Turing
arithmetic in `int64_t`, and carries its own SHA-256. Unsigned arithmetic wraps
and is `UInt64`/`UInt32` here. Signed overflow is undefined behaviour in C: an
operation whose exact result does not fit is the fault `signedOverflow`, which is
not one of the checker's return codes.
-/

namespace AttestedCompute.Ladder

/-- The rejection codes of `pt21_ladder_check.h`; zero is acceptance. -/
inductive LadderError where
  | magic
  | blockIndex
  | countCursor
  | slotClosure
  | slotDerivation
  | parity
  | boundarySign
  | stationary
  | turingLower
  | turingUpper
  | interval
  | overflow
  | length
  | geometry
  deriving DecidableEq, Repr

/-- The numeric return code. -/
def LadderError.code : LadderError → Nat
  | magic => 1
  | blockIndex => 2
  | countCursor => 3
  | slotClosure => 4
  | slotDerivation => 5
  | parity => 6
  | boundarySign => 7
  | stationary => 8
  | turingLower => 9
  | turingUpper => 10
  | interval => 11
  | overflow => 12
  | length => 13
  | geometry => 14

/-- How a call can fail to accept: a return code, or undefined behaviour. -/
inductive Fault where
  | rejected (e : LadderError)
  | signedOverflow
  deriving DecidableEq, Repr

/-- Reject with `e` when `bad` holds. -/
def rejectIf (bad : Bool) (e : LadderError) : Except Fault Unit :=
  if bad then .error (.rejected e) else .ok ()

theorem rejectIf_ok {bad : Bool} {e : LadderError} {u : Unit} :
    rejectIf bad e = .ok u ↔ bad = false := by
  cases bad <;> simp [rejectIf]

/-- `pt21_read_be32` -/
def readBe32 (p : Bytes) (i : Nat) : UInt32 := Sha256.readBe32 p i

/-- `pt21_read_be64` -/
def readBe64 (p : Bytes) (i : Nat) : UInt64 :=
  let high := (readBe32 p i).toUInt64
  let low := (readBe32 p (i + 4)).toUInt64
  (high <<< 32) ||| low

/-- `pt21_read_be_i64` -/
def readBeI64 (p : Bytes) (i : Nat) : Int :=
  let raw := readBe64 p i
  if raw &&& 0x8000000000000000 ≠ 0 then -((~~~raw).toNat : Int) - 1 else (raw.toNat : Int)

/-- `pt21_write_be64` -/
def writeBe64 (value : UInt64) : Bytes :=
  [(value >>> 56).toUInt8, (value >>> 48).toUInt8, (value >>> 40).toUInt8, (value >>> 32).toUInt8,
    (value >>> 24).toUInt8, (value >>> 16).toUInt8, (value >>> 8).toUInt8, value.toUInt8]

/-- The conversion `(int64_t)value`: modulo `2^64`, as every supported compiler defines it. -/
def toInt64 (value : UInt64) : Int :=
  if value.toNat < 2 ^ 63 then (value.toNat : Int) else (value.toNat : Int) - 2 ^ 64

/-- Reading a signed word is reading the word and converting it. -/
theorem readBeI64_eq (p : Bytes) (i : Nat) : readBeI64 p i = toInt64 (readBe64 p i) := by
  have hlt := (readBe64 p i).toNat_lt
  have hsign : (readBe64 p i &&& 0x8000000000000000).toNat
      = ((readBe64 p i).toNat.testBit 63).toNat * 2 ^ 63 := by
    rw [UInt64.toNat_and]
    exact Nat.and_two_pow _ 63
  unfold readBeI64 toInt64
  dsimp only
  by_cases hbit : (readBe64 p i).toNat.testBit 63 = true
  · have hge : 2 ^ 63 ≤ (readBe64 p i).toNat := Nat.ge_two_pow_of_testBit hbit
    have hnot : (~~~(readBe64 p i)).toNat = 2 ^ 64 - 1 - (readBe64 p i).toNat :=
      UInt64.toNat_not _
    rw [if_pos, if_neg (by omega), hnot]
    · omega
    · intro hzero
      rw [hzero, hbit] at hsign
      exact absurd hsign (by decide)
  · rw [Bool.not_eq_true] at hbit
    have hsmall : (readBe64 p i).toNat < 2 ^ 63 := by
      rw [Nat.testBit_eq_decide_div_mod_eq, decide_eq_false_iff_not] at hbit
      omega
    rw [hbit] at hsign
    rw [if_neg, if_pos hsmall]
    rw [not_not]
    exact UInt64.toNat_inj.mp (by simpa using hsign)

theorem toInt64_inj {x y : UInt64} (h : toInt64 x = toInt64 y) : x = y := by
  have hx := x.toNat_lt
  have hy := y.toNat_lt
  unfold toInt64 at h
  refine UInt64.toNat_inj.mp ?_
  split at h
  · split at h
    · omega
    · omega
  · split at h
    · omega
    · omega

/-- A word determines its eight bytes. -/
theorem readBe64_inj {p q : Bytes} {i : Nat} (h : readBe64 p i = readBe64 q i) {k : Nat}
    (hk : k < 8) : p.at0 (i + k) = q.at0 (i + k) := by
  have hvalue : ∀ bytes : Bytes, (readBe64 bytes i).toNat
      = (readBe32 bytes i).toNat * 2 ^ 32 + (readBe32 bytes (i + 4)).toNat := by
    intro bytes
    have hhigh := (readBe32 bytes i).toNat_lt
    have hlow := (readBe32 bytes (i + 4)).toNat_lt
    have hshift : ((readBe32 bytes i).toUInt64 <<< 32).toNat = 2 ^ 32 * (readBe32 bytes i).toNat := by
      have hcount : (32 : UInt64).toNat % 64 = 32 := rfl
      rw [UInt64.toNat_shiftLeft, UInt32.toNat_toUInt64, Nat.shiftLeft_eq, Nat.mul_comm, hcount]
      exact Nat.mod_eq_of_lt (by omega)
    unfold readBe64
    rw [UInt64.toNat_or, hshift, UInt32.toNat_toUInt64, ← Nat.two_pow_add_eq_or_of_lt hlow,
      Nat.mul_comm]
  have hnat := congrArg UInt64.toNat h
  rw [hvalue p, hvalue q] at hnat
  have hp := (readBe32 p (i + 4)).toNat_lt
  have hq := (readBe32 q (i + 4)).toNat_lt
  have hhigh : readBe32 p i = readBe32 q i := UInt32.toNat_inj.mp (by omega)
  have hlow : readBe32 p (i + 4) = readBe32 q (i + 4) := UInt32.toNat_inj.mp (by omega)
  by_cases hk4 : k < 4
  · exact Sha256.readBe32_inj hhigh hk4
  · have hbyte := Sha256.readBe32_inj hlow (show k - 4 < 4 by omega)
    rwa [show i + 4 + (k - 4) = i + k by omega] at hbyte

/-- An `int64_t` operation with exact result `x`. -/
def int64 (x : Int) : Except Fault Int :=
  if -2 ^ 63 ≤ x ∧ x < 2 ^ 63 then .ok x else .error .signedOverflow

/-! ## SHA-256 as the checker runs it -/

/-- `pt21_sha256_absorb`: an exact multiple of 64 bytes. -/
def sha256Absorb (state : Sha256.State) (bytes : Bytes) (blocks : Nat) : Sha256.State :=
  IteratedHash.absorb Sha256.compress 64 blocks state bytes

/-- `pt21_sha256_finalize`: absorb an arbitrary tail and finalize. The padded tail is the
source's `final_blocks`, zero everywhere it is not written. -/
def sha256Finalize (state : Sha256.State) (tail : Bytes) (totalLength : UInt64) : Bytes :=
  let bitLength := totalLength * 8
  let padded := if tail.length < 56 then 64 else 128
  let finalBlocks := tail ++ 0x80 :: (List.replicate (padded - 8 - (tail.length + 1)) 0
    ++ writeBe64 bitLength)
  (sha256Absorb state finalBlocks (padded / 64)).toBytes

@[simp] theorem length_writeBe64 (value : UInt64) : (writeBe64 value).length = 8 := rfl

/-- The eight written bytes are the big-endian numeral of the word. -/
theorem writeBe64_eq (value : UInt64) : writeBe64 value = Bytes.ofNatBE 8 value.toNat := by
  have hshift : ∀ k : UInt64, k < 64 →
      (value >>> k).toUInt8 = UInt8.ofNat (value.toNat / 2 ^ k.toNat % 256) := by
    intro k hk
    have hk' : k.toNat < 64 := hk
    refine UInt8.toNat_inj.mp ?_
    rw [UInt64.toNat_toUInt8, UInt64.toNat_shiftRight, Nat.mod_eq_of_lt hk',
      Nat.shiftRight_eq_div_pow, UInt8.toNat_ofNat_of_lt' (Nat.mod_lt _ (by decide))]
  have hlow : value.toUInt8 = UInt8.ofNat (value.toNat % 256) := by
    refine UInt8.toNat_inj.mp ?_
    rw [UInt64.toNat_toUInt8, UInt8.toNat_ofNat_of_lt' (Nat.mod_lt _ (by decide))]
  rw [Bytes.ofNatBE, Positional.digits_eq_map_range, writeBe64, hshift 56 (by decide),
    hshift 48 (by decide), hshift 40 (by decide), hshift 32 (by decide), hshift 24 (by decide),
    hshift 16 (by decide), hshift 8 (by decide), hlow]
  simp [List.range_succ]

theorem beValue_writeBe64 (value : UInt64) : Bytes.beValue (writeBe64 value) = value.toNat := by
  rw [writeBe64_eq, Bytes.beValue_ofNatBE_of_lt value.toNat_lt]

/-- The padded tail the checker builds is the FIPS padding of the whole message. -/
theorem finalBlocks_eq {tail : Bytes} {total : UInt64} {n : Nat} (htail : tail.length < 64)
    (htotal : total.toNat = n * 64 + tail.length) (hbits : total.toNat * 8 < 2 ^ 64) :
    0x80 :: (List.replicate ((if tail.length < 56 then 64 else 128) - 8 - (tail.length + 1)) 0
      ++ writeBe64 (total * 8)) = Sha256.pad (n * 64 + tail.length) := by
  have hmul : (total * 8).toNat = 8 * (n * 64 + tail.length) := by
    rw [UInt64.toNat_mul, Nat.mod_eq_of_lt (by simpa using hbits), htotal]
    simp [Nat.mul_comm]
  have hzeros : (if tail.length < 56 then 64 else 128) - 8 - (tail.length + 1)
      = Sha256.padZeros (n * 64 + tail.length) := by
    rw [Sha256.padZeros_add, Sha256.padZeros]
    split <;> omega
  rw [writeBe64_eq, hmul, hzeros, Sha256.pad]

/-- **The checker's streaming SHA-256 is SHA-256.** Whole blocks absorbed as they
arrive, then finalized with a tail, give the digest of everything that was fed. -/
theorem sha256Finalize_eq {front tail : Bytes} {n : Nat} {total : UInt64}
    (hfront : front.length = n * 64) (htail : tail.length < 64)
    (htotal : total.toNat = n * 64 + tail.length) (hbits : total.toNat * 8 < 2 ^ 64) :
    sha256Finalize (sha256Absorb Sha256.init front n) tail total
      = Sha256.digest (front ++ tail) := by
  have hblocks : (if tail.length < 56 then 64 else 128)
      = tail.length + (Sha256.pad (n * 64 + tail.length)).length := by
    rw [Sha256.length_pad, Sha256.padZeros_add, Sha256.padZeros]
    split <;> omega
  rw [Sha256.digest, IteratedHash.oneShot_append (by decide) hfront, hfront, ← hblocks,
    ← finalBlocks_eq htail htotal hbits]
  rfl

/-- Absorbing one more block. -/
theorem sha256Absorb_snoc {bytes block : Bytes} {n : Nat} (hbytes : bytes.length = n * 64)
    (s : Sha256.State) :
    sha256Absorb (sha256Absorb s bytes n) block 1 = sha256Absorb s (bytes ++ block) (n + 1) :=
  (IteratedHash.absorb_append hbytes 1 s block).symm

end AttestedCompute.Ladder
