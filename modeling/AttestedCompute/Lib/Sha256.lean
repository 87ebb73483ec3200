import AttestedCompute.Lib.IteratedHash

/-!
# SHA-256

The hash function of FIPS 180-4 over 32-bit words: message schedule, compression,
padding, and the one-shot digest as an instance of `IteratedHash`.

Collision resistance is not a theorem about this function (it is false of any
function from all byte strings to 32 bytes), so results that need it name the
byte strings on which they assume that there is no collision.
-/

namespace Sha256

/-- The eight working words. -/
structure State where
  a : UInt32
  b : UInt32
  c : UInt32
  d : UInt32
  e : UInt32
  f : UInt32
  g : UInt32
  h : UInt32
  deriving DecidableEq, Repr

/-- The round constants. -/
def roundConstants : List UInt32 := [
  0x428a2f98, 0x71374491, 0xb5c0fbcf, 0xe9b5dba5, 0x3956c25b, 0x59f111f1, 0x923f82a4, 0xab1c5ed5,
  0xd807aa98, 0x12835b01, 0x243185be, 0x550c7dc3, 0x72be5d74, 0x80deb1fe, 0x9bdc06a7, 0xc19bf174,
  0xe49b69c1, 0xefbe4786, 0x0fc19dc6, 0x240ca1cc, 0x2de92c6f, 0x4a7484aa, 0x5cb0a9dc, 0x76f988da,
  0x983e5152, 0xa831c66d, 0xb00327c8, 0xbf597fc7, 0xc6e00bf3, 0xd5a79147, 0x06ca6351, 0x14292967,
  0x27b70a85, 0x2e1b2138, 0x4d2c6dfc, 0x53380d13, 0x650a7354, 0x766a0abb, 0x81c2c92e, 0x92722c85,
  0xa2bfe8a1, 0xa81a664b, 0xc24b8b70, 0xc76c51a3, 0xd192e819, 0xd6990624, 0xf40e3585, 0x106aa070,
  0x19a4c116, 0x1e376c08, 0x2748774c, 0x34b0bcb5, 0x391c0cb3, 0x4ed8aa4a, 0x5b9cca4f, 0x682e6ff3,
  0x748f82ee, 0x78a5636f, 0x84c87814, 0x8cc70208, 0x90befffa, 0xa4506ceb, 0xbef9a3f7, 0xc67178f2]

/-- The initial hash value. -/
def init : State :=
  { a := 0x6a09e667, b := 0xbb67ae85, c := 0x3c6ef372, d := 0xa54ff53a
    e := 0x510e527f, f := 0x9b05688c, g := 0x1f83d9ab, h := 0x5be0cd19 }

def rotateRight (value amount : UInt32) : UInt32 :=
  (value >>> amount) ||| (value <<< (32 - amount))

def smallSigma0 (x : UInt32) : UInt32 := rotateRight x 7 ^^^ rotateRight x 18 ^^^ (x >>> 3)

def smallSigma1 (x : UInt32) : UInt32 := rotateRight x 17 ^^^ rotateRight x 19 ^^^ (x >>> 10)

def bigSigma0 (x : UInt32) : UInt32 := rotateRight x 2 ^^^ rotateRight x 13 ^^^ rotateRight x 22

def bigSigma1 (x : UInt32) : UInt32 := rotateRight x 6 ^^^ rotateRight x 11 ^^^ rotateRight x 25

def choose (x y z : UInt32) : UInt32 := (x &&& y) ^^^ (~~~x &&& z)

def majority (x y z : UInt32) : UInt32 := (x &&& y) ^^^ (x &&& z) ^^^ (y &&& z)

/-- The big-endian 32-bit word at byte offset `i`. -/
def readBe32 (p : Bytes) (i : Nat) : UInt32 :=
  ((p.at0 i).toUInt32 <<< 24) ||| ((p.at0 (i + 1)).toUInt32 <<< 16)
    ||| ((p.at0 (i + 2)).toUInt32 <<< 8) ||| (p.at0 (i + 3)).toUInt32

/-- Extend the message schedule by the word at `index`. -/
def extendSchedule (words : List UInt32) (index : Nat) : List UInt32 :=
  words ++ [words.getD (index - 16) 0 + smallSigma0 (words.getD (index - 15) 0)
    + words.getD (index - 7) 0 + smallSigma1 (words.getD (index - 2) 0)]

/-- The 64 words of one block's message schedule. -/
def schedule (block : Bytes) : List UInt32 :=
  ((List.range 48).map (· + 16)).foldl extendSchedule
    ((List.range 16).map fun index => readBe32 block (index * 4))

/-- One round. -/
def round (words : List UInt32) (s : State) (index : Nat) : State :=
  let t1 := s.h + bigSigma1 s.e + choose s.e s.f s.g + roundConstants.getD index 0
    + words.getD index 0
  let t2 := bigSigma0 s.a + majority s.a s.b s.c
  { a := t1 + t2, b := s.a, c := s.b, d := s.c, e := s.d + t1, f := s.e, g := s.f, h := s.g }

/-- The compression function on one 64-byte block. -/
def compress (s : State) (block : Bytes) : State :=
  let w := (List.range 64).foldl (round (schedule block)) s
  { a := s.a + w.a, b := s.b + w.b, c := s.c + w.c, d := s.d + w.d
    e := s.e + w.e, f := s.f + w.f, g := s.g + w.g, h := s.h + w.h }

/-- The number of zero bytes between the closing `0x80` and the length. -/
def padZeros (n : Nat) : Nat := (119 - n % 64) % 64

/-- The padding of a message of `n` bytes. -/
def pad (n : Nat) : Bytes :=
  0x80 :: (List.replicate (padZeros n) 0 ++ Bytes.ofNatBE 8 (8 * n))

/-- A chaining value as 32 bytes. -/
def State.toBytes (s : State) : Bytes :=
  [s.a, s.b, s.c, s.d, s.e, s.f, s.g, s.h].flatMap fun w => Bytes.ofNatBE 4 w.toNat

/-- SHA-256 of a byte string, as 32 bytes. -/
def digest (msg : Bytes) : Bytes := (IteratedHash.oneShot compress 64 pad init msg).toBytes

/-- SHA-256 of a byte string, as 64 lowercase hexadecimal digits. -/
def hexdigest (msg : Bytes) : String := (digest msg).hex

@[simp] theorem length_toBytes (s : State) : s.toBytes.length = 32 := by
  simp [State.toBytes]

@[simp] theorem length_digest (msg : Bytes) : (digest msg).length = 32 := length_toBytes _

@[simp] theorem length_hexdigest (msg : Bytes) : (hexdigest msg).length = 64 := by
  simp [hexdigest]

@[simp] theorem length_pad (n : Nat) : (pad n).length = padZeros n + 9 := by
  simp [pad]

/-- Appending whole blocks before a message does not change its zero padding. -/
theorem padZeros_add (n k : Nat) : padZeros (k * 64 + n) = padZeros n := by
  unfold padZeros
  omega

/-- The value of a big-endian word: the shifted bytes share no bit. -/
theorem toNat_be32 (b0 b1 b2 b3 : UInt8) :
    ((b0.toUInt32 <<< 24) ||| (b1.toUInt32 <<< 16) ||| (b2.toUInt32 <<< 8) ||| b3.toUInt32).toNat
      = b0.toNat * 2 ^ 24 + b1.toNat * 2 ^ 16 + b2.toNat * 2 ^ 8 + b3.toNat := by
  have h0 := b0.toNat_lt
  have h1 := b1.toNat_lt
  have h2 := b2.toNat_lt
  have h3 := b3.toNat_lt
  have hfirst : b0.toNat * 2 ^ 24 ||| b1.toNat * 2 ^ 16 = (b0.toNat * 2 ^ 8 + b1.toNat) * 2 ^ 16 := by
    rw [Nat.mul_comm _ (2 ^ 24), ← Nat.two_pow_add_eq_or_of_lt (by omega)]
    omega
  have hsecond : (b0.toNat * 2 ^ 8 + b1.toNat) * 2 ^ 16 ||| b2.toNat * 2 ^ 8
      = (b0.toNat * 2 ^ 16 + b1.toNat * 2 ^ 8 + b2.toNat) * 2 ^ 8 := by
    rw [Nat.mul_comm _ (2 ^ 16), ← Nat.two_pow_add_eq_or_of_lt (by omega)]
    omega
  have hthird : (b0.toNat * 2 ^ 16 + b1.toNat * 2 ^ 8 + b2.toNat) * 2 ^ 8 ||| b3.toNat
      = b0.toNat * 2 ^ 24 + b1.toNat * 2 ^ 16 + b2.toNat * 2 ^ 8 + b3.toNat := by
    rw [Nat.mul_comm _ (2 ^ 8), ← Nat.two_pow_add_eq_or_of_lt (by omega)]
    omega
  have hleft : ∀ (b : UInt8) (k : UInt32), k.toNat ≤ 24 →
      (b.toUInt32 <<< k).toNat = b.toNat * 2 ^ k.toNat := by
    intro b k hk
    have hb := b.toNat_lt
    have hpow : 2 ^ k.toNat ≤ 2 ^ 24 := Nat.pow_le_pow_right (by decide) hk
    have hle := Nat.mul_le_mul (Nat.le_of_lt_succ hb) hpow
    rw [UInt32.toNat_shiftLeft, UInt8.toNat_toUInt32, Nat.mod_eq_of_lt (by omega : k.toNat < 32),
      Nat.shiftLeft_eq, Nat.mod_eq_of_lt (by omega)]
  rw [UInt32.toNat_or, UInt32.toNat_or, UInt32.toNat_or, hleft b0 24 (by decide),
    hleft b1 16 (by decide), hleft b2 8 (by decide), UInt8.toNat_toUInt32]
  show b0.toNat * 2 ^ 24 ||| b1.toNat * 2 ^ 16 ||| b2.toNat * 2 ^ 8 ||| b3.toNat = _
  rw [hfirst, hsecond, hthird]

/-- A word determines its four bytes. -/
theorem readBe32_inj {p q : Bytes} {i : Nat} (h : readBe32 p i = readBe32 q i) {k : Nat}
    (hk : k < 4) : p.at0 (i + k) = q.at0 (i + k) := by
  have hnat := congrArg UInt32.toNat h
  unfold readBe32 at hnat
  rw [toNat_be32, toNat_be32] at hnat
  have hlt : ∀ (bytes : Bytes) (j : Nat), (bytes.at0 j).toNat < 256 :=
    fun bytes j => (bytes.at0 j).toNat_lt
  have hp0 := hlt p i
  have hp1 := hlt p (i + 1)
  have hp2 := hlt p (i + 2)
  have hp3 := hlt p (i + 3)
  have hq0 := hlt q i
  have hq1 := hlt q (i + 1)
  have hq2 := hlt q (i + 2)
  have hq3 := hlt q (i + 3)
  refine UInt8.toNat_inj.mp ?_
  match k, hk with
  | 0, _ => rw [Nat.add_zero]; omega
  | 1, _ => omega
  | 2, _ => omega
  | 3, _ => omega

end Sha256
