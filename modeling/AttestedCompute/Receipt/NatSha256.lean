import AttestedCompute.Lib.Sha256

/-!
# SHA-256 on natural numbers

The verifier that Lean runs computes SHA-256 with `Nat` words reduced modulo `2^32`,
reading its input byte by byte and never building the padded message. This file
embeds that implementation and proves that it is SHA-256 (`digestString_eq`).

The two programs differ in everything but the order of their operations, so the proof
is one simulation: `State.nat` relates the chaining values, and each operation has one
lemma that carries it across.
-/

namespace AttestedCompute.Receipt.NatSha256

def wordModulus : Nat := 2 ^ 32
def wordMask : Nat := wordModulus - 1

def word (value : Nat) : Nat := value % wordModulus
def xor (left right : Nat) : Nat := Nat.xor left right
def and (left right : Nat) : Nat := Nat.land left right
def not (value : Nat) : Nat := xor wordMask value

def rotateRight (value count : Nat) : Nat :=
  word (Nat.shiftRight value count + Nat.shiftLeft value (32 - count))

def shiftRight (value count : Nat) : Nat := Nat.shiftRight value count

def choose (x y z : Nat) : Nat := xor (and x y) (and (not x) z)

def majority (x y z : Nat) : Nat := xor (xor (and x y) (and x z)) (and y z)

def bigSigma0 (x : Nat) : Nat := xor (xor (rotateRight x 2) (rotateRight x 13)) (rotateRight x 22)

def bigSigma1 (x : Nat) : Nat := xor (xor (rotateRight x 6) (rotateRight x 11)) (rotateRight x 25)

def smallSigma0 (x : Nat) : Nat := xor (xor (rotateRight x 7) (rotateRight x 18)) (shiftRight x 3)

def smallSigma1 (x : Nat) : Nat := xor (xor (rotateRight x 17) (rotateRight x 19)) (shiftRight x 10)

def roundConstants : Array Nat := #[
  0x428a2f98, 0x71374491, 0xb5c0fbcf, 0xe9b5dba5,
  0x3956c25b, 0x59f111f1, 0x923f82a4, 0xab1c5ed5,
  0xd807aa98, 0x12835b01, 0x243185be, 0x550c7dc3,
  0x72be5d74, 0x80deb1fe, 0x9bdc06a7, 0xc19bf174,
  0xe49b69c1, 0xefbe4786, 0x0fc19dc6, 0x240ca1cc,
  0x2de92c6f, 0x4a7484aa, 0x5cb0a9dc, 0x76f988da,
  0x983e5152, 0xa831c66d, 0xb00327c8, 0xbf597fc7,
  0xc6e00bf3, 0xd5a79147, 0x06ca6351, 0x14292967,
  0x27b70a85, 0x2e1b2138, 0x4d2c6dfc, 0x53380d13,
  0x650a7354, 0x766a0abb, 0x81c2c92e, 0x92722c85,
  0xa2bfe8a1, 0xa81a664b, 0xc24b8b70, 0xc76c51a3,
  0xd192e819, 0xd6990624, 0xf40e3585, 0x106aa070,
  0x19a4c116, 0x1e376c08, 0x2748774c, 0x34b0bcb5,
  0x391c0cb3, 0x4ed8aa4a, 0x5b9cca4f, 0x682e6ff3,
  0x748f82ee, 0x78a5636f, 0x84c87814, 0x8cc70208,
  0x90befffa, 0xa4506ceb, 0xbef9a3f7, 0xc67178f2]

structure State where
  a : Nat
  b : Nat
  c : Nat
  d : Nat
  e : Nat
  f : Nat
  g : Nat
  h : Nat
  deriving DecidableEq, Repr

def initialState : State :=
  { a := 0x6a09e667, b := 0xbb67ae85, c := 0x3c6ef372, d := 0xa54ff53a
    e := 0x510e527f, f := 0x9b05688c, g := 0x1f83d9ab, h := 0x5be0cd19 }

def byteAt (bytes : List Nat) (index : Nat) : Nat := bytes.getD index 0

def readWordFrom (getByte : Nat → Nat) (index : Nat) : Nat :=
  let offset := index * 4
  word (Nat.shiftLeft (getByte offset) 24 + Nat.shiftLeft (getByte (offset + 1)) 16
    + Nat.shiftLeft (getByte (offset + 2)) 8 + getByte (offset + 3))

def initialScheduleFrom (getByte : Nat → Nat) : Array Nat :=
  ((List.range 16).map (readWordFrom getByte)).toArray

/-- One of the 48 schedule-extension iterations, indexed from zero. -/
def extendSchedule (schedule : Array Nat) (offset : Nat) : Array Nat :=
  let index := offset + 16
  let next := word (smallSigma1 (schedule.getD (index - 2) 0) + schedule.getD (index - 7) 0
    + smallSigma0 (schedule.getD (index - 15) 0) + schedule.getD (index - 16) 0)
  schedule.push next

def messageScheduleFrom (getByte : Nat → Nat) : Array Nat :=
  (List.range 48).foldl extendSchedule (initialScheduleFrom getByte)

def round (schedule : Array Nat) (state : State) (index : Nat) : State :=
  let temporary1 := word (state.h + bigSigma1 state.e + choose state.e state.f state.g
    + roundConstants.getD index 0 + schedule.getD index 0)
  let temporary2 := word (bigSigma0 state.a + majority state.a state.b state.c)
  { a := word (temporary1 + temporary2)
    b := state.a
    c := state.b
    d := state.c
    e := word (state.d + temporary1)
    f := state.e
    g := state.f
    h := state.g }

def compressFrom (hash : State) (getByte : Nat → Nat) : State :=
  let schedule := messageScheduleFrom getByte
  let working := (List.range 64).foldl (round schedule) hash
  { a := word (hash.a + working.a)
    b := word (hash.b + working.b)
    c := word (hash.c + working.c)
    d := word (hash.d + working.d)
    e := word (hash.e + working.e)
    f := word (hash.f + working.f)
    g := word (hash.g + working.g)
    h := word (hash.h + working.h) }

def encodedLength (byteCount : Nat) : List Nat :=
  let bitCount := (byteCount * 8) % (2 ^ 64)
  (List.range 8).map fun index => (Nat.shiftRight bitCount (8 * (7 - index))) % 256

/-- The suffix appended after the unpadded message bytes. -/
def paddingNats (byteCount : Nat) : List Nat :=
  let zeroCount := (56 + 64 - ((byteCount + 1) % 64)) % 64
  [0x80] ++ List.replicate zeroCount 0 ++ encodedLength byteCount

/-- Fold over consecutive 64-byte source offsets. -/
def foldSourceBlocks {α : Type} (step : α → Nat → α) : Nat → Nat → α → α
  | 0, _, state => state
  | count + 1, offset, state => foldSourceBlocks step count (offset + 64) (step state offset)

/-- A view of bytes by index. -/
structure ByteSource where
  byteCount : Nat
  getNat : Nat → Nat

namespace ByteSource

def ofByteArray (bytes : ByteArray) : ByteSource :=
  { byteCount := bytes.size
    getNat := fun index => (bytes.get! index).toNat }

/-- Virtual padding: the message itself stays in its source. -/
def paddedByte (source : ByteSource) (index : Nat) : Nat :=
  if index < source.byteCount then source.getNat index
  else byteAt (paddingNats source.byteCount) (index - source.byteCount)

def paddedSize (source : ByteSource) : Nat :=
  source.byteCount + (paddingNats source.byteCount).length

end ByteSource

/-- Hash a source block by block, never building the message. -/
def hashSource (source : ByteSource) : State :=
  foldSourceBlocks
    (fun current offset => compressFrom current fun position =>
      source.paddedByte (offset + position))
    (source.paddedSize / 64) 0 initialState

def wordHex (value : Nat) : String :=
  String.ofList ((List.range 8).map fun index =>
    Bytes.hexDigit ((Nat.shiftRight value (4 * (7 - index))) % 16))

def stateHex (hash : State) : String :=
  wordHex hash.a ++ wordHex hash.b ++ wordHex hash.c ++ wordHex hash.d
    ++ wordHex hash.e ++ wordHex hash.f ++ wordHex hash.g ++ wordHex hash.h

def digestSource (source : ByteSource) : String := stateHex (hashSource source)

def digestByteArray (bytes : ByteArray) : String := digestSource (ByteSource.ofByteArray bytes)

/-- SHA-256 of a string's UTF-8 bytes, as 64 lowercase hexadecimal digits. -/
def digestString (value : String) : String := digestByteArray value.toUTF8

/-! ## Words -/

theorem word_add (x y : UInt32) : word (x.toNat + y.toNat) = (x + y).toNat :=
  (UInt32.toNat_add x y).symm

theorem xor_toNat (x y : UInt32) : xor x.toNat y.toNat = (x ^^^ y).toNat :=
  (UInt32.toNat_xor x y).symm

theorem and_toNat (x y : UInt32) : and x.toNat y.toNat = (x &&& y).toNat :=
  (UInt32.toNat_and x y).symm

theorem not_toNat (x : UInt32) : not x.toNat = (~~~x).toNat := by
  have hmask : wordMask = (-1 : UInt32).toNat := by decide
  rw [not, hmask, xor_toNat, UInt32.neg_one_xor]

/-- A rotation as a sum: the two shifted halves share no bit. -/
theorem rotateRight_toNat (x : UInt32) {count : Nat} (hpos : 0 < count) (hlt : count < 32) :
    rotateRight x.toNat count = (Sha256.rotateRight x (UInt32.ofNat count)).toNat := by
  have hcount : (UInt32.ofNat count).toNat = count := UInt32.toNat_ofNat_of_lt' (by
    show count < 2 ^ 32
    omega)
  have hrest : (32 - UInt32.ofNat count).toNat = 32 - count := by
    rw [UInt32.toNat_sub_of_le _ _ (UInt32.le_iff_toNat_le.mpr (by rw [hcount]; exact hlt.le)),
      hcount]
    rfl
  have hlow : x.toNat >>> count < 2 ^ (32 - count) := by
    rw [Nat.shiftRight_eq_div_pow, Nat.div_lt_iff_lt_mul (by positivity), ← pow_add,
      Nat.sub_add_cancel hlt.le]
    exact x.toNat_lt
  have hhigh : x.toNat <<< (32 - count) % 2 ^ 32 = (x.toNat % 2 ^ count) <<< (32 - count) := by
    rw [Nat.shiftLeft_eq, Nat.shiftLeft_eq, show (2 : Nat) ^ 32 = 2 ^ count * 2 ^ (32 - count) by
      rw [← pow_add, Nat.add_sub_cancel' hlt.le], Nat.mul_mod_mul_right]
  have hbound : (x.toNat % 2 ^ count) <<< (32 - count) ||| x.toNat >>> count < 2 ^ 32 := by
    refine Nat.or_lt_two_pow ?_ (lt_of_lt_of_le hlow (Nat.pow_le_pow_right (by decide) (by omega)))
    rw [← hhigh]
    exact Nat.mod_lt _ (by positivity)
  calc rotateRight x.toNat count
      = (x.toNat <<< (32 - count) % 2 ^ 32 + x.toNat >>> count) % 2 ^ 32 := by
        rw [Nat.mod_add_mod, Nat.add_comm]
        rfl
    _ = (x.toNat % 2 ^ count) <<< (32 - count) ||| x.toNat >>> count := by
        rw [hhigh, Nat.shiftLeft_add_eq_or_of_lt hlow, Nat.mod_eq_of_lt hbound]
    _ = (Sha256.rotateRight x (UInt32.ofNat count)).toNat := by
        rw [Sha256.rotateRight, UInt32.toNat_or, UInt32.toNat_shiftRight, UInt32.toNat_shiftLeft,
          hcount, hrest, Nat.mod_eq_of_lt hlt, Nat.mod_eq_of_lt (by omega : 32 - count < 32), hhigh,
          Nat.or_comm]

theorem shiftRight_toNat (x : UInt32) {count : Nat} (hlt : count < 32) :
    shiftRight x.toNat count = (x >>> UInt32.ofNat count).toNat := by
  have hcount : (UInt32.ofNat count).toNat = count := UInt32.toNat_ofNat_of_lt' (by
    show count < 2 ^ 32
    omega)
  rw [UInt32.toNat_shiftRight, hcount, Nat.mod_eq_of_lt hlt]
  rfl

theorem choose_toNat (x y z : UInt32) :
    choose x.toNat y.toNat z.toNat = (Sha256.choose x y z).toNat := by
  rw [choose, not_toNat, and_toNat, and_toNat, xor_toNat, Sha256.choose]

theorem majority_toNat (x y z : UInt32) :
    majority x.toNat y.toNat z.toNat = (Sha256.majority x y z).toNat := by
  rw [majority, and_toNat, and_toNat, and_toNat, xor_toNat, xor_toNat, Sha256.majority]

theorem bigSigma0_toNat (x : UInt32) : bigSigma0 x.toNat = (Sha256.bigSigma0 x).toNat := by
  rw [bigSigma0, rotateRight_toNat x (by decide) (by decide),
    rotateRight_toNat x (by decide) (by decide), rotateRight_toNat x (by decide) (by decide),
    xor_toNat, xor_toNat]
  rfl

theorem bigSigma1_toNat (x : UInt32) : bigSigma1 x.toNat = (Sha256.bigSigma1 x).toNat := by
  rw [bigSigma1, rotateRight_toNat x (by decide) (by decide),
    rotateRight_toNat x (by decide) (by decide), rotateRight_toNat x (by decide) (by decide),
    xor_toNat, xor_toNat]
  rfl

theorem smallSigma0_toNat (x : UInt32) : smallSigma0 x.toNat = (Sha256.smallSigma0 x).toNat := by
  rw [smallSigma0, rotateRight_toNat x (by decide) (by decide),
    rotateRight_toNat x (by decide) (by decide), shiftRight_toNat x (by decide), xor_toNat,
    xor_toNat]
  rfl

theorem smallSigma1_toNat (x : UInt32) : smallSigma1 x.toNat = (Sha256.smallSigma1 x).toNat := by
  rw [smallSigma1, rotateRight_toNat x (by decide) (by decide),
    rotateRight_toNat x (by decide) (by decide), shiftRight_toNat x (by decide), xor_toNat,
    xor_toNat]
  rfl

theorem word_add4 (w x y z : UInt32) :
    word (w.toNat + x.toNat + y.toNat + z.toNat) = (w + x + y + z).toNat := by
  simp only [UInt32.toNat_add, word, wordModulus]
  omega

theorem word_add5 (v w x y z : UInt32) :
    word (v.toNat + w.toNat + x.toNat + y.toNat + z.toNat) = (v + w + x + y + z).toNat := by
  simp only [UInt32.toNat_add, word, wordModulus]
  omega

/-! ## One block -/

/-- The natural numbers of a list of words. -/
def enc (words : List UInt32) : Array Nat := (words.map UInt32.toNat).toArray

theorem getD_enc (words : List UInt32) (i : Nat) :
    (enc words).getD i 0 = (words.getD i 0).toNat := by
  rw [enc, Array.getD_eq_getD_getElem?, List.getElem?_toArray, List.getElem?_map,
    List.getD_eq_getElem?_getD]
  cases words[i]? with
  | none => rfl
  | some w => rfl

theorem roundConstants_eq : roundConstants = enc Sha256.roundConstants := by
  decide

/-- The chaining value as natural numbers. -/
def State.ofWords (s : Sha256.State) : State :=
  { a := s.a.toNat, b := s.b.toNat, c := s.c.toNat, d := s.d.toNat
    e := s.e.toNat, f := s.f.toNat, g := s.g.toNat, h := s.h.toNat }

theorem initialState_eq : initialState = State.ofWords Sha256.init := by
  decide

theorem round_enc (words : List UInt32) (s : Sha256.State) (index : Nat) :
    round (enc words) (State.ofWords s) index = State.ofWords (Sha256.round words s index) := by
  have ht1 := word_add5 s.h (Sha256.bigSigma1 s.e) (Sha256.choose s.e s.f s.g)
    (Sha256.roundConstants.getD index 0) (words.getD index 0)
  have ht2 := word_add (Sha256.bigSigma0 s.a) (Sha256.majority s.a s.b s.c)
  simp only [round, State.ofWords, bigSigma1_toNat, choose_toNat, bigSigma0_toNat, majority_toNat,
    roundConstants_eq, getD_enc, ht1, ht2, word_add]
  rfl

theorem extendSchedule_enc (words : List UInt32) (offset : Nat) :
    extendSchedule (enc words) offset = enc (Sha256.extendSchedule words (offset + 16)) := by
  have hnext := word_add4 (Sha256.smallSigma1 (words.getD (offset + 16 - 2) 0))
    (words.getD (offset + 16 - 7) 0) (Sha256.smallSigma0 (words.getD (offset + 16 - 15) 0))
    (words.getD (offset + 16 - 16) 0)
  have hcomm : ∀ w x y z : UInt32, w + x + y + z = z + y + x + w := by
    intro w x y z
    ac_rfl
  simp only [extendSchedule, getD_enc, smallSigma1_toNat, smallSigma0_toNat, hnext]
  rw [hcomm, Sha256.extendSchedule, enc, enc, List.push_toArray, List.map_append]
  rfl

/-- Four bytes as one word. -/
theorem word_bytes (b0 b1 b2 b3 : UInt8) :
    word (Nat.shiftLeft b0.toNat 24 + Nat.shiftLeft b1.toNat 16 + Nat.shiftLeft b2.toNat 8
        + b3.toNat)
      = ((b0.toUInt32 <<< 24) ||| (b1.toUInt32 <<< 16) ||| (b2.toUInt32 <<< 8)
        ||| b3.toUInt32).toNat := by
  have h0 := b0.toNat_lt
  have h1 := b1.toNat_lt
  have h2 := b2.toNat_lt
  have h3 := b3.toNat_lt
  have hshift : ∀ n k : Nat, Nat.shiftLeft n k = n * 2 ^ k := fun n k => Nat.shiftLeft_eq n k
  rw [Sha256.toNat_be32, hshift, hshift, hshift, word, wordModulus]
  omega

theorem readWordFrom_enc {getByte : Nat → Nat} {block : Bytes} {index : Nat}
    (h : ∀ j < 64, getByte j = (block.at0 j).toNat) (hindex : index < 16) :
    readWordFrom getByte index = (Sha256.readBe32 block (index * 4)).toNat := by
  simp only [readWordFrom, h (index * 4) (by omega), h (index * 4 + 1) (by omega),
    h (index * 4 + 2) (by omega), h (index * 4 + 3) (by omega)]
  exact word_bytes _ _ _ _

theorem messageScheduleFrom_enc {getByte : Nat → Nat} {block : Bytes}
    (h : ∀ j < 64, getByte j = (block.at0 j).toNat) :
    messageScheduleFrom getByte = enc (Sha256.schedule block) := by
  have hinit : initialScheduleFrom getByte
      = enc ((List.range 16).map fun index => Sha256.readBe32 block (index * 4)) := by
    rw [initialScheduleFrom, enc, List.map_map]
    exact congrArg List.toArray (List.map_congr_left fun index hindex =>
      readWordFrom_enc h (List.mem_range.mp hindex))
  rw [messageScheduleFrom, hinit, Sha256.schedule, List.foldl_map]
  exact List.foldl_hom enc fun words offset => extendSchedule_enc words offset

/-- **One block.** The two compression functions agree. -/
theorem compressFrom_enc {getByte : Nat → Nat} {block : Bytes} (s : Sha256.State)
    (h : ∀ j < 64, getByte j = (block.at0 j).toNat) :
    compressFrom (State.ofWords s) getByte = State.ofWords (Sha256.compress s block) := by
  have hrounds : (List.range 64).foldl (round (enc (Sha256.schedule block))) (State.ofWords s)
      = State.ofWords ((List.range 64).foldl (Sha256.round (Sha256.schedule block)) s) :=
    List.foldl_hom State.ofWords fun s index => round_enc _ s index
  rw [compressFrom, messageScheduleFrom_enc h, hrounds]
  simp only [State.ofWords, word_add]
  rfl

/-! ## Whole messages -/

/-- The padding suffix, byte by byte. -/
theorem paddingNats_eq (n : Nat) : paddingNats n = Bytes.nats (Sha256.pad n) := by
  have hzeros : (56 + 64 - (n + 1) % 64) % 64 = Sha256.padZeros n := by
    unfold Sha256.padZeros
    omega
  have hlength : encodedLength n = Bytes.nats (Bytes.ofNatBE 8 (8 * n)) := by
    rw [Bytes.nats_ofNatBE, Positional.digits_eq_map_range, encodedLength]
    refine List.map_congr_left fun i hi => ?_
    have hlt : i < 8 := List.mem_range.mp hi
    show (n * 8 % 2 ^ 64) >>> (8 * (7 - i)) % 256 = 8 * n / 256 ^ (8 - 1 - i) % 256
    rw [Nat.shiftRight_eq_div_pow]
    interval_cases i <;> omega
  have hrep : Bytes.nats (List.replicate (Sha256.padZeros n) 0)
      = List.replicate (Sha256.padZeros n) 0 := List.map_replicate
  have hsplit : Sha256.pad n = [0x80] ++ (List.replicate (Sha256.padZeros n) 0
      ++ Bytes.ofNatBE 8 (8 * n)) := rfl
  rw [paddingNats, hzeros, hlength, hsplit, Bytes.nats_append, Bytes.nats_append, hrep,
    List.append_assoc]
  rfl

/-- The source reads exactly these bytes. -/
def ByteSource.Realizes (source : ByteSource) (bytes : Bytes) : Prop :=
  source.byteCount = bytes.length ∧ ∀ index, source.getNat index = (bytes.at0 index).toNat

theorem ofByteArray_realizes (bytes : ByteArray) :
    (ByteSource.ofByteArray bytes).Realizes bytes.data.toList := by
  refine ⟨by rw [Array.length_toList]; rfl, fun index => ?_⟩
  have hget : bytes.get! index = bytes.data.toList.getD index 0 := by
    cases bytes with
    | mk data =>
        rw [List.getD_eq_getElem?_getD, Array.getElem?_toList, ← Array.getD_eq_getD_getElem?]
        exact Array.getElem!_eq_getD
  exact congrArg UInt8.toNat hget

/-- The padded source reads the padded message. -/
theorem paddedByte_eq {source : ByteSource} {bytes : Bytes} (h : source.Realizes bytes)
    (index : Nat) :
    source.paddedByte index = ((bytes ++ Sha256.pad bytes.length : Bytes).at0 index).toNat := by
  unfold ByteSource.paddedByte Bytes.at0
  rw [h.1, List.getD_eq_getElem?_getD, List.getElem?_append]
  split
  · rw [h.2, Bytes.at0, List.getD_eq_getElem?_getD]
  · rw [paddingNats_eq, byteAt, Bytes.nats, List.getD_eq_getElem?_getD, List.getElem?_map]
    cases (Sha256.pad bytes.length)[index - bytes.length]? with
    | none => rfl
    | some b => rfl

theorem paddedSize_eq {source : ByteSource} {bytes : Bytes} (h : source.Realizes bytes) :
    source.paddedSize = bytes.length + (Sha256.pad bytes.length).length := by
  rw [ByteSource.paddedSize, h.1, paddingNats_eq, Bytes.length_nats]

/-- The fold over source offsets is the fold over the blocks of the padded message. -/
theorem foldSourceBlocks_eq {source : ByteSource} {padded : Bytes}
    (h : ∀ index, source.paddedByte index = (padded.at0 index).toNat) (count offset : Nat)
    (s : Sha256.State) (hlen : offset + count * 64 ≤ padded.length) :
    foldSourceBlocks (fun current offset => compressFrom current fun position =>
        source.paddedByte (offset + position)) count offset (State.ofWords s)
      = State.ofWords (IteratedHash.absorb Sha256.compress 64 count s (padded.drop offset)) := by
  induction count generalizing offset s with
  | zero => rfl
  | succ count ih =>
      have hblock : ∀ j < 64,
          source.paddedByte (offset + j)
            = (Bytes.at0 ((padded.drop offset).take 64) j).toNat := by
        intro j hj
        rw [h, Bytes.at0, Bytes.at0, List.getD_eq_getElem?_getD, List.getD_eq_getElem?_getD,
          List.getElem?_take_of_lt hj, List.getElem?_drop]
      rw [foldSourceBlocks, compressFrom_enc s hblock, ih (offset + 64) _ (by omega),
        IteratedHash.absorb, List.drop_drop]

/-- **The block loop computes SHA-256.** -/
theorem hashSource_eq {source : ByteSource} {bytes : Bytes} (h : source.Realizes bytes) :
    hashSource source = State.ofWords (IteratedHash.oneShot Sha256.compress 64 Sha256.pad
      Sha256.init bytes) := by
  rw [hashSource, initialState_eq, paddedSize_eq h, IteratedHash.oneShot]
  refine (foldSourceBlocks_eq (paddedByte_eq h) _ 0 _ ?_).trans (by rw [List.drop_zero])
  rw [List.length_append, Nat.zero_add]
  exact Nat.div_mul_le_self _ _

theorem wordHex_eq (w : UInt32) : wordHex w.toNat = Bytes.hex (Bytes.ofNatBE 4 w.toNat) := by
  have hlt : w.toNat < 256 ^ 4 := w.toNat_lt
  rw [wordHex, Bytes.hex, Bytes.hexChars, Bytes.nibbles_eq_digits, Bytes.length_ofNatBE,
    Bytes.beValue_ofNatBE_of_lt hlt, Positional.digits_eq_map_range, List.map_map]
  refine congrArg String.ofList (List.map_congr_left fun i hi => ?_)
  show Bytes.hexDigit (w.toNat >>> (4 * (7 - i)) % 16) = _
  rw [Nat.shiftRight_eq_div_pow, pow_mul]
  rfl

theorem stateHex_eq (s : Sha256.State) : stateHex (State.ofWords s) = Bytes.hex s.toBytes := by
  unfold stateHex Sha256.State.toBytes
  simp only [List.flatMap_cons, List.flatMap_nil, List.append_nil, Bytes.hex_append, State.ofWords,
    wordHex_eq, String.append_assoc]

/-- **The digest of a byte array is its SHA-256.** -/
theorem digestByteArray_eq (bytes : ByteArray) :
    digestByteArray bytes = Sha256.hexdigest bytes.data.toList := by
  rw [digestByteArray, digestSource, hashSource_eq (ofByteArray_realizes bytes), stateHex_eq]
  rfl

/-- The UTF-8 bytes of a string. -/
def utf8 (s : String) : Bytes := s.toList.flatMap String.utf8EncodeChar

theorem digestString_eq (s : String) : digestString s = Sha256.hexdigest (utf8 s) := by
  rw [digestString, digestByteArray_eq, String.toUTF8_eq_toByteArray, ← String.utf8Encode_toList,
    List.utf8Encode, List.toList_data_toByteArray]
  rfl

end AttestedCompute.Receipt.NatSha256
