import AttestedCompute.Receipt.NatSha256

/-!
# Evaluating SHA-256

An evaluator on lists, for digests of fixed messages. The message schedule is kept in reverse, so
that its extension reads near the front, and a round consumes its word and its constant together.
-/

namespace AttestedCompute.Receipt.NatSha256

/-- The big-endian words of a run of bytes. -/
def wordsOf : List Nat → List Nat
  | b0 :: b1 :: b2 :: b3 :: rest => (((b0 * 256 + b1) * 256 + b2) * 256 + b3) :: wordsOf rest
  | _ => []

/-- One more word of the reversed schedule. -/
def extendReversed (words : List Nat) : List Nat :=
  word (smallSigma1 (words.getD 1 0) + words.getD 6 0 + smallSigma0 (words.getD 14 0)
    + words.getD 15 0) :: words

def extendTimes : Nat → List Nat → List Nat
  | 0, words => words
  | n + 1, words => extendTimes n (extendReversed words)

/-- The round constants as natural numbers. -/
def constantWords : List Nat := Sha256.roundConstants.map UInt32.toNat

/-- A round with its constant and its word. -/
def roundWith (state : State) (operands : Nat × Nat) : State :=
  let temporary1 := word (state.h + bigSigma1 state.e + choose state.e state.f state.g
    + operands.1 + operands.2)
  let temporary2 := word (bigSigma0 state.a + majority state.a state.b state.c)
  { a := word (temporary1 + temporary2)
    b := state.a
    c := state.b
    d := state.c
    e := word (state.d + temporary1)
    f := state.e
    g := state.f
    h := state.g }

def compressWords (hash : State) (block : Bytes) : State :=
  let schedule := (extendTimes 48 (wordsOf block.nats).reverse).reverse
  let working := (constantWords.zip schedule).foldl roundWith hash
  { a := word (hash.a + working.a)
    b := word (hash.b + working.b)
    c := word (hash.c + working.c)
    d := word (hash.d + working.d)
    e := word (hash.e + working.e)
    f := word (hash.f + working.f)
    g := word (hash.g + working.g)
    h := word (hash.h + working.h) }

/-- The chaining value after a whole message. -/
def hashWords (msg : Bytes) : State :=
  IteratedHash.oneShot compressWords 64 Sha256.pad initialState msg

def State.toBytes (s : State) : Bytes :=
  [s.a, s.b, s.c, s.d, s.e, s.f, s.g, s.h].flatMap (Bytes.ofNatBE 4)

/-! ## One block -/

theorem readBe32_cons (b0 b1 b2 b3 : UInt8) (rest : Bytes) (i : Nat) :
    Sha256.readBe32 (b0 :: b1 :: b2 :: b3 :: rest) ((i + 1) * 4) =
      Sha256.readBe32 rest (i * 4) := by
  have hat : ∀ k, Bytes.at0 (b0 :: b1 :: b2 :: b3 :: rest) (k + 4) = rest.at0 k := fun _ => rfl
  rw [Sha256.readBe32, Nat.succ_mul, hat, show i * 4 + 4 + 1 = i * 4 + 1 + 4 by rfl, hat,
    show i * 4 + 4 + 2 = i * 4 + 2 + 4 by rfl, hat, show i * 4 + 4 + 3 = i * 4 + 3 + 4 by rfl, hat,
    Sha256.readBe32]

theorem wordsOf_eq {n : Nat} {block : Bytes} (h : block.length = 4 * n) :
    wordsOf block.nats =
      ((List.range n).map fun index => Sha256.readBe32 block (index * 4)).map UInt32.toNat := by
  induction n generalizing block with
  | zero =>
      have hnil : block = [] := List.length_eq_zero_iff.mp (by omega)
      rw [hnil]
      rfl
  | succ n ih =>
      obtain ⟨b0, b1, b2, b3, rest, rfl⟩ : ∃ b0 b1 b2 b3 rest,
          block = b0 :: b1 :: b2 :: b3 :: rest := by
        match block, h with
        | b0 :: b1 :: b2 :: b3 :: rest, _ => exact ⟨b0, b1, b2, b3, rest, rfl⟩
      have hrest : rest.length = 4 * n := by
        rw [List.length_cons, List.length_cons, List.length_cons, List.length_cons] at h
        omega
      have hword := word_bytes b0 b1 b2 b3
      have hshift : ∀ n k : Nat, Nat.shiftLeft n k = n * 2 ^ k := fun n k => Nat.shiftLeft_eq n k
      have h0 := b0.toNat_lt
      have h1 := b1.toNat_lt
      have h2 := b2.toNat_lt
      have h3 := b3.toNat_lt
      rw [hshift, hshift, hshift, word, wordModulus] at hword
      rw [List.range_succ_eq_map, List.map_cons, List.map_cons, List.map_map]
      refine congrArg₂ List.cons ?_ ?_
      · refine Eq.trans ?_ hword
        omega
      · rw [List.map_map]
        refine (ih hrest).trans ?_
        rw [List.map_map]
        exact List.map_congr_left fun i _ =>
          congrArg UInt32.toNat (readBe32_cons b0 b1 b2 b3 rest i).symm

/-- A schedule in reverse, as natural numbers. -/
def reversed (words : List UInt32) : List Nat := (words.map UInt32.toNat).reverse

theorem getD_reversed {words : List UInt32} {k : Nat} (h : k < words.length) :
    (reversed words).getD k 0 = (words.getD (words.length - 1 - k) 0).toNat := by
  have hlt : words.length - 1 - k < words.length := by omega
  rw [reversed, List.getD_eq_getElem?_getD, List.getElem?_reverse (by rwa [List.length_map]),
    List.length_map, List.getElem?_map, List.getD_eq_getElem?_getD, List.getElem?_eq_getElem hlt]
  rfl

theorem extendReversed_eq {words : List UInt32} (h : 16 ≤ words.length) :
    extendReversed (reversed words) = reversed (Sha256.extendSchedule words words.length) := by
  have hnext := word_add4 (Sha256.smallSigma1 (words.getD (words.length - 2) 0))
    (words.getD (words.length - 7) 0) (Sha256.smallSigma0 (words.getD (words.length - 15) 0))
    (words.getD (words.length - 16) 0)
  have hcomm : ∀ w x y z : UInt32, w + x + y + z = z + y + x + w := by
    intro w x y z
    ac_rfl
  rw [extendReversed, getD_reversed (by omega), getD_reversed (by omega), getD_reversed (by omega),
    getD_reversed (by omega), smallSigma1_toNat, smallSigma0_toNat, Nat.sub_sub, Nat.sub_sub,
    Nat.sub_sub, Nat.sub_sub, hnext, hcomm, Sha256.extendSchedule, reversed, reversed,
    List.map_append, List.reverse_append]
  rfl

theorem extendTimes_eq {words : List UInt32} (n : Nat) (h : 16 ≤ words.length) :
    extendTimes n (reversed words) =
      reversed ((List.range' words.length n).foldl Sha256.extendSchedule words) := by
  induction n generalizing words with
  | zero => rfl
  | succ n ih =>
      have hlength : (Sha256.extendSchedule words words.length).length = words.length + 1 := by
        simp [Sha256.extendSchedule]
      rw [extendTimes, extendReversed_eq h, ih (by omega), hlength]
      rfl

theorem length_foldl_extend (words : List UInt32) (indices : List Nat) :
    (indices.foldl Sha256.extendSchedule words).length = words.length + indices.length := by
  induction indices generalizing words with
  | nil => rfl
  | cons index rest ih =>
      rw [List.foldl_cons, ih]
      simp [Sha256.extendSchedule]
      omega

theorem schedule_eq {block : Bytes} (h : block.length = 64) :
    (extendTimes 48 (wordsOf block.nats).reverse).reverse =
        (Sha256.schedule block).map UInt32.toNat ∧
      (Sha256.schedule block).length = 64 := by
  have hrange : (List.range 48).map (· + 16) = List.range' 16 48 := by decide
  have hlength : ((List.range 16).map fun index => Sha256.readBe32 block (index * 4)).length = 16 := by
    simp
  have htimes := extendTimes_eq 48 (le_of_eq hlength.symm)
  rw [hlength] at htimes
  rw [Sha256.schedule, hrange, wordsOf_eq (n := 16) h]
  refine ⟨(congrArg List.reverse htimes).trans (List.reverse_reverse _), ?_⟩
  rw [length_foldl_extend, hlength, List.length_range']

/-- Two lists read in step. -/
theorem zip_eq_map_range {xs ys : List UInt32} {n : Nat} (hx : xs.length = n) (hy : ys.length = n) :
    (xs.map UInt32.toNat).zip (ys.map UInt32.toNat) =
      (List.range n).map fun i => ((xs.getD i 0).toNat, (ys.getD i 0).toNat) := by
  refine List.ext_getElem (by simp [hx, hy]) fun i hi _ => ?_
  rw [List.length_zip, List.length_map, List.length_map] at hi
  simp [List.getD_eq_getElem?_getD, List.getElem?_eq_getElem (by omega : i < xs.length),
    List.getElem?_eq_getElem (by omega : i < ys.length)]

theorem roundWith_eq (words : List UInt32) (s : Sha256.State) (index : Nat) :
    roundWith (State.ofWords s)
        ((Sha256.roundConstants.getD index 0).toNat, (words.getD index 0).toNat) =
      State.ofWords (Sha256.round words s index) := by
  rw [← round_enc, round, roundConstants_eq, getD_enc, getD_enc]
  rfl

theorem compressWords_eq (s : Sha256.State) {block : Bytes} (h : block.length = 64) :
    compressWords (State.ofWords s) block = State.ofWords (Sha256.compress s block) := by
  obtain ⟨hschedule, hlength⟩ := schedule_eq h
  have hconstants : Sha256.roundConstants.length = 64 := rfl
  have hrounds : (constantWords.zip ((Sha256.schedule block).map UInt32.toNat)).foldl roundWith
      (State.ofWords s) =
        State.ofWords ((List.range 64).foldl (Sha256.round (Sha256.schedule block)) s) := by
    rw [constantWords, zip_eq_map_range hconstants hlength, List.foldl_map]
    exact List.foldl_hom State.ofWords fun s index => roundWith_eq _ s index
  rw [compressWords, hschedule, hrounds]
  simp only [State.ofWords, word_add]
  rfl

/-! ## Whole messages -/

theorem absorb_eq (n : Nat) (s : Sha256.State) {bytes : Bytes} (h : n * 64 ≤ bytes.length) :
    IteratedHash.absorb compressWords 64 n (State.ofWords s) bytes =
      State.ofWords (IteratedHash.absorb Sha256.compress 64 n s bytes) := by
  induction n generalizing s bytes with
  | zero => rfl
  | succ n ih =>
      have hblock : (bytes.take 64).length = 64 := by
        rw [List.length_take]
        omega
      rw [IteratedHash.absorb, compressWords_eq s hblock,
        ih _ (by rw [List.length_drop]; omega), IteratedHash.absorb]

/-- **The evaluator computes SHA-256.** -/
theorem digest_eq_toBytes (msg : Bytes) : Sha256.digest msg = (hashWords msg).toBytes := by
  have hlength : (msg.length + (Sha256.pad msg.length).length) / 64 * 64 ≤
      (msg ++ Sha256.pad msg.length).length := by
    rw [List.length_append]
    exact Nat.div_mul_le_self _ _
  rw [hashWords, IteratedHash.oneShot, initialState_eq, absorb_eq _ _ hlength, Sha256.digest,
    IteratedHash.oneShot]
  rfl

theorem hexdigest_eq_hashWords (msg : Bytes) :
    Sha256.hexdigest msg = (hashWords msg).toBytes.hex := by
  rw [Sha256.hexdigest, digest_eq_toBytes]

end AttestedCompute.Receipt.NatSha256
