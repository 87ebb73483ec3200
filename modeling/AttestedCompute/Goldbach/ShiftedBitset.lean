import AttestedCompute.Lib.BitWords
import AttestedCompute.Lib.Fallible

/-!
# The shifted-bitset coverage stage

`alignment_offset`, `extract_shifted_word`, `coverage_word` and `replay_live_bits`
of `tg_verifier/goldbach_shifted_bitset.py`. The coverage loop takes a whole word at
every offset and stops once the live bits are covered, so it examines an initial
part of the offsets. The replay asks every live bit on its own and stops at the
first offset that has it. Neither reaches past what the other examined: a bit that
the loop has covered is found among the examined offsets, and when a live bit is
missing the loop examined them all.
-/

namespace AttestedCompute.Goldbach.ShiftedBitset

open Fallible (refuseIf refuseIf_ok bind_ok pure_ok)

def WORD_BITS : Nat := 64

def WORD_MASK : Nat := 2 ^ 64 - 1

/-- The failures of the coverage stage. -/
inductive ShiftedBitsetError where
  | notWord (what : String)
  | notNatural (name : String)
  | noAlignment
  | startsOutside
  | lacksCarry
  | emptyMask
  | noOffset
  deriving DecidableEq, Repr

def ShiftedBitsetError.message : ShiftedBitsetError → String
  | notWord what => what ++ " is not an unsigned 64-bit word"
  | notNatural name => name
  | noAlignment => "small-prime shift has no exact nonnegative alignment"
  | startsOutside => "shifted word starts outside the q bitset"
  | lacksCarry => "unaligned shifted word lacks its carry word"
  | emptyMask => "live_mask must select at least one output bit"
  | noOffset => "at least one aligned small-prime offset is required"

abbrev Result := Except ShiftedBitsetError

/-- `_word` -/
def word (value : Int) (what : String) : Result Nat :=
  if 0 ≤ value ∧ value ≤ WORD_MASK then .ok value.toNat else .error (.notWord what)

/-- The check of `alignment_offset` on one of its arguments. -/
def requireNatural (name : String) (value : Int) : Result Unit :=
  refuseIf (value < 0) (.notNatural (name ++ " must be a natural number"))

/-- `alignment_offset` -/
def alignmentOffset (evenLow qLow prime : Int) : Result Int := do
  requireNatural "even_low" evenLow
  requireNatural "q_low" qLow
  requireNatural "prime" prime
  let difference := evenLow - qLow - prime
  refuseIf (difference < 0 ∨ difference % 2 ≠ 0) .noAlignment
  pure (difference / 2)

/-- `_word(q_words[index], f"q word {index}")`, or the failure `e` past the end. -/
def loadWord (qWords : List Int) (index : Nat) (e : ShiftedBitsetError) : Result Nat :=
  match qWords[index]? with
  | none => .error e
  | some value => word value ("q word " ++ toString index)

/-- `extract_shifted_word` -/
def extractShiftedWord (qWords : List Int) (firstBit : Int) : Result Nat := do
  requireNatural "first_bit" firstBit
  let wordIndex := (firstBit / WORD_BITS).toNat
  let shift := (firstBit % WORD_BITS).toNat
  let first ← loadWord qWords wordIndex .startsOutside
  let low := first >>> shift
  if shift = 0 then pure low
  else do
    let high ← loadWord qWords (wordIndex + 1) .lacksCarry
    pure ((low ||| (high <<< (WORD_BITS - shift))) &&& WORD_MASK)

structure CoverageWord where
  covered : Nat
  rounds : Nat
  liveMask : Nat
  deriving DecidableEq

def CoverageWord.accepted (w : CoverageWord) : Bool := w.covered &&& w.liveMask = w.liveMask

/-- The loop over the offsets: `rounds` is also the index of the next one. -/
def coverOffsets (qWords : List Int) (outputWord : Int) (liveMask : Nat) :
    Nat → Nat → List Int → Result (Nat × Nat)
  | covered, rounds, [] => .ok (covered, rounds)
  | covered, rounds, offset :: rest => do
      refuseIf (offset < 0)
        (.notNatural ("base offset " ++ toString rounds ++ " is not a natural number"))
      let bits ← extractShiftedWord qWords (offset + WORD_BITS * outputWord)
      if (covered ||| bits) &&& liveMask = liveMask then pure (covered ||| bits, rounds + 1)
      else coverOffsets qWords outputWord liveMask (covered ||| bits) (rounds + 1) rest

/-- `coverage_word` -/
def coverageWord (qWords baseOffsets : List Int) (outputWord liveMask : Int) :
    Result CoverageWord := do
  requireNatural "output_word" outputWord
  let liveMask ← word liveMask "live_mask"
  refuseIf (liveMask = 0) .emptyMask
  refuseIf (baseOffsets = []) .noOffset
  let (covered, rounds) ← coverOffsets qWords outputWord liveMask 0 0 baseOffsets
  pure { covered := covered &&& WORD_MASK, rounds := rounds, liveMask := liveMask }

/-- `any(...)` over the offsets, which stops at the first one that has the bit. -/
def anyOffset (qWords : List Int) (outputWord : Int) (bit : Nat) : List Int → Result Bool
  | [] => .ok false
  | offset :: rest => do
      let bits ← extractShiftedWord qWords (offset + WORD_BITS * outputWord)
      if bits.testBit bit then pure true else anyOffset qWords outputWord bit rest

/-- The loop over the bits of the word. -/
def replayBits (qWords baseOffsets : List Int) (outputWord : Int) (liveMask : Nat)
    (result : CoverageWord) : List Nat → Result Bool
  | [] => .ok result.accepted
  | bit :: rest =>
      if liveMask.testBit bit then do
        let expected ← anyOffset qWords outputWord bit baseOffsets
        if result.covered.testBit bit ≠ expected then pure false
        else replayBits qWords baseOffsets outputWord liveMask result rest
      else replayBits qWords baseOffsets outputWord liveMask result rest

/-- `replay_live_bits`; the mask has passed `_word` when the loop starts. -/
def replayLiveBits (qWords baseOffsets : List Int) (outputWord liveMask : Int) : Result Bool := do
  let result ← coverageWord qWords baseOffsets outputWord liveMask
  replayBits qWords baseOffsets outputWord liveMask.toNat result (List.range WORD_BITS)

/-! ## The extracted word -/

/-- Bit `position` of the concatenated q bitset. -/
def qBit (qWords : List Int) (position : Int) : Bool :=
  0 ≤ position && BitWords.bit WORD_BITS (qWords.map Int.toNat) position.toNat

theorem word_ok {value : Int} {what : String} {w : Nat} :
    word value what = .ok w ↔ (0 ≤ value ∧ value ≤ WORD_MASK) ∧ value.toNat = w := by
  unfold word
  split
  · rename_i h; simp [h]
  · rename_i h; simp [h]

theorem loadWord_ok {qWords : List Int} {index : Nat} {e : ShiftedBitsetError} {w : Nat}
    (h : loadWord qWords index e = .ok w) :
    (qWords.map Int.toNat).getD index 0 = w ∧ w < 2 ^ WORD_BITS := by
  unfold loadWord at h
  cases hget : qWords[index]? with
  | none =>
      rw [hget] at h
      exact absurd h (by simp)
  | some value =>
      rw [hget] at h
      obtain ⟨⟨h0, hmask⟩, rfl⟩ := word_ok.mp h
      refine ⟨by simp [List.getD_eq_getElem?_getD, hget], ?_⟩
      unfold WORD_MASK at hmask
      unfold WORD_BITS
      omega

/-- **The two-load equation reads consecutive bits.** -/
theorem extract_testBit {qWords : List Int} {firstBit : Int} {w : Nat}
    (h : extractShiftedWord qWords firstBit = .ok w) {b : Nat} (hb : b < WORD_BITS) :
    w.testBit b = qBit qWords (firstBit + b) := by
  unfold extractShiftedWord requireNatural at h
  simp only [bind_ok, refuseIf_ok, not_lt, exists_and_left] at h
  obtain ⟨hpos, -, first, hfirst, h⟩ := h
  obtain ⟨hget, hbound⟩ := loadWord_ok hfirst
  obtain ⟨n, rfl⟩ := Int.eq_ofNat_of_zero_le hpos
  have hdiv : ((n : Int) / WORD_BITS).toNat = n / WORD_BITS := by
    rw [← Int.natCast_ediv, Int.toNat_natCast]
  have hmod : ((n : Int) % WORD_BITS).toNat = n % WORD_BITS := by
    rw [← Int.natCast_emod, Int.toNat_natCast]
  rw [hdiv] at hget h
  rw [hmod] at h
  have hsplit : WORD_BITS * (n / WORD_BITS) + n % WORD_BITS + b = n + b := by
    rw [Nat.div_add_mod]
  have hqbit : qBit qWords (n + b) = BitWords.bit WORD_BITS (qWords.map Int.toNat) (n + b) := by
    unfold qBit
    rw [show ((n : Int) + b).toNat = n + b by omega, decide_eq_true (by omega), Bool.true_and]
  rw [hqbit, ← hsplit]
  have hshift : n % WORD_BITS < WORD_BITS := Nat.mod_lt _ (by decide)
  split at h
  · rename_i h0
    rw [pure_ok] at h
    rw [h0, Nat.add_zero, BitWords.bit_word (by decide) hb, hget, ← h, h0, Nat.shiftRight_zero]
  · rw [bind_ok] at h
    obtain ⟨high, hhigh, h⟩ := h
    rw [pure_ok] at h
    have hwindow := BitWords.bit_window (by decide) hshift hb (hget ▸ hbound)
    rw [hget, (loadWord_ok hhigh).1] at hwindow
    rw [← hwindow, ← h]
    rfl

/-! ## The loop over the offsets -/

/-- The offset has the bit of the output word. -/
def HasBit (qWords : List Int) (outputWord : Int) (b : Nat) (offset : Int) : Prop :=
  qBit qWords (offset + WORD_BITS * outputWord + b) = true

/-- A word can be extracted at the offset. -/
def Extracts (qWords : List Int) (outputWord : Int) (offset : Int) : Prop :=
  ∃ w, extractShiftedWord qWords (offset + WORD_BITS * outputWord) = .ok w

/-- Every live bit is set. -/
def CoversLive (covered liveMask : Nat) : Prop :=
  ∀ b, liveMask.testBit b = true → covered.testBit b = true

theorem and_eq_right_iff {covered liveMask : Nat} :
    covered &&& liveMask = liveMask ↔ CoversLive covered liveMask := by
  constructor
  · intro h b hb
    have := congrArg (Nat.testBit · b) h
    simpa [Nat.testBit_and, hb] using this
  · intro h
    refine Nat.eq_of_testBit_eq fun b => ?_
    rw [Nat.testBit_and]
    cases hb : liveMask.testBit b with
    | false => rw [Bool.and_false]
    | true => rw [h b hb, Bool.and_true]

/-- **What the loop has examined when it returns.** -/
structure Examined (qWords : List Int) (outputWord : Int) (liveMask : Nat) (offsets : List Int)
    (before after examined : Nat) : Prop where
  extracts : ∀ o ∈ offsets.take examined, Extracts qWords outputWord o
  bits : ∀ b < WORD_BITS, (after.testBit b = true ↔
    before.testBit b = true ∨ ∃ o ∈ offsets.take examined, HasBit qWords outputWord b o)
  stopped : offsets.length ≤ examined ∨ CoversLive after liveMask

theorem coverOffsets_ok {qWords : List Int} {outputWord : Int} {liveMask : Nat}
    {offsets : List Int} {covered rounds after rounds' : Nat}
    (h : coverOffsets qWords outputWord liveMask covered rounds offsets = .ok (after, rounds')) :
    ∃ examined, rounds' = rounds + examined
      ∧ Examined qWords outputWord liveMask offsets covered after examined := by
  induction offsets generalizing covered rounds with
  | nil =>
      injection h with h
      obtain ⟨rfl, rfl⟩ := Prod.mk.inj h
      exact ⟨0, rfl, by simp, by simp, .inl (Nat.zero_le _)⟩
  | cons offset rest ih =>
      unfold coverOffsets at h
      simp only [bind_ok, refuseIf_ok, exists_and_left] at h
      obtain ⟨-, -, w, hw, h⟩ := h
      have hbits : ∀ b < WORD_BITS, ((covered ||| w).testBit b = true
          ↔ covered.testBit b = true ∨ HasBit qWords outputWord b offset) := by
        intro b hb
        rw [Nat.testBit_or, Bool.or_eq_true, extract_testBit hw hb]
        rfl
      split at h
      · -- every live bit is covered: the loop breaks
        rename_i hlive
        rw [pure_ok] at h
        obtain ⟨rfl, rfl⟩ := Prod.mk.inj h
        refine ⟨1, rfl, ?_, ?_, .inr (and_eq_right_iff.mp hlive)⟩
        · intro o ho
          rw [List.take_succ_cons, List.take_zero, List.mem_singleton] at ho
          exact ho ▸ ⟨w, hw⟩
        · intro b hb
          rw [hbits b hb]
          simp
      · obtain ⟨examined, rfl, hextracts, hafter, hstopped⟩ := ih h
        refine ⟨examined + 1, by omega, ?_, ?_, ?_⟩
        · intro o ho
          rw [List.take_succ_cons, List.mem_cons] at ho
          rcases ho with rfl | ho
          · exact ⟨w, hw⟩
          · exact hextracts o ho
        · intro b hb
          rw [hafter b hb, hbits b hb, List.take_succ_cons, List.exists_mem_cons_iff, or_assoc]
        · exact hstopped.imp (fun hlen => Nat.succ_le_succ hlen) id

/-- The first offset with the bit is found among the examined ones. -/
theorem anyOffset_ok {qWords : List Int} {outputWord : Int} {b examined : Nat}
    (hb : b < WORD_BITS) {offsets : List Int}
    (hextracts : ∀ o ∈ offsets.take examined, Extracts qWords outputWord o)
    (hstop : offsets.length ≤ examined ∨ ∃ o ∈ offsets.take examined, HasBit qWords outputWord b o) :
    ∃ found, anyOffset qWords outputWord b offsets = .ok found
      ∧ (found = true ↔ ∃ o ∈ offsets.take examined, HasBit qWords outputWord b o) := by
  induction offsets generalizing examined with
  | nil => exact ⟨false, rfl, by simp⟩
  | cons offset rest ih =>
      cases examined with
      | zero => simp at hstop
      | succ examined =>
          rw [List.take_succ_cons] at hextracts hstop ⊢
          rw [List.exists_mem_cons_iff] at hstop ⊢
          obtain ⟨⟨w, hw⟩, hrest⟩ := List.forall_mem_cons.mp hextracts
          have hbit : w.testBit b = true ↔ HasBit qWords outputWord b offset := by
            rw [extract_testBit hw hb]
            rfl
          unfold anyOffset
          rw [hw]
          simp only [Except.bind, bind]
          by_cases hfirst : w.testBit b = true
          · rw [if_pos hfirst]
            exact ⟨true, rfl, by simp [hbit.mp hfirst]⟩
          · rw [if_neg hfirst]
            have hnot : ¬ HasBit qWords outputWord b offset := fun h => hfirst (hbit.mpr h)
            obtain ⟨found, hfound, hiff⟩ := ih hrest <| by
              rcases hstop with hlen | hnow | hlater
              · exact .inl (Nat.le_of_succ_le_succ hlen)
              · exact absurd hnow hnot
              · exact .inr hlater
            exact ⟨found, hfound, by simp [hiff, hnot]⟩

theorem replayBits_ok {qWords baseOffsets : List Int} {outputWord : Int} {liveMask : Nat}
    {result : CoverageWord} {bits : List Nat}
    (h : ∀ b ∈ bits, liveMask.testBit b = true →
      anyOffset qWords outputWord b baseOffsets = .ok (result.covered.testBit b)) :
    replayBits qWords baseOffsets outputWord liveMask result bits = .ok result.accepted := by
  induction bits with
  | nil => rfl
  | cons b rest ih =>
      obtain ⟨hb, hrest⟩ := List.forall_mem_cons.mp h
      unfold replayBits
      split
      · rename_i hlive
        rw [hb hlive]
        simp only [Except.bind, bind, ne_eq, not_true_eq_false, if_false]
        exact ih hrest
      · exact ih hrest

/-! ## The whole word -/

/-- A live bit of the mask is a bit of the word. -/
theorem lt_of_live {liveMask b : Nat} (hmask : liveMask < 2 ^ WORD_BITS)
    (hb : liveMask.testBit b = true) : b < WORD_BITS := by
  by_contra hbig
  have := hmask.trans_le (Nat.pow_le_pow_right (by decide) (not_lt.mp hbig))
  rw [Nat.testBit_lt_two_pow this] at hb
  exact absurd hb (by decide)

/-- What a returning `coverage_word` has done. -/
theorem coverageWord_ok {qWords baseOffsets : List Int} {outputWord liveMask : Int}
    {r : CoverageWord} (h : coverageWord qWords baseOffsets outputWord liveMask = .ok r) :
    r.liveMask = liveMask.toNat ∧ r.liveMask < 2 ^ WORD_BITS
      ∧ Examined qWords outputWord r.liveMask baseOffsets 0 r.covered r.rounds := by
  unfold coverageWord requireNatural at h
  simp only [bind_ok, refuseIf_ok, word_ok, pure_ok, exists_and_left, Prod.exists] at h
  obtain ⟨-, -, live, ⟨⟨h0, hmask⟩, rfl⟩, -, -, -, -, covered, rounds, hloop, rfl⟩ := h
  obtain ⟨examined, hrounds, hextracts, hbits, hstopped⟩ := coverOffsets_ok hloop
  rw [Nat.zero_add] at hrounds
  subst hrounds
  have hlive : liveMask.toNat < 2 ^ WORD_BITS := by
    unfold WORD_MASK at hmask
    unfold WORD_BITS
    omega
  have hcovered : ∀ b, (covered &&& WORD_MASK).testBit b
      = (covered.testBit b && decide (b < WORD_BITS)) := by
    intro b
    rw [Nat.testBit_and, WORD_MASK, Nat.testBit_two_pow_sub_one]
    rfl
  refine ⟨rfl, hlive, hextracts, fun b hb => ?_, hstopped.imp id fun hcovers b hb => ?_⟩
  · rw [hcovered b, decide_eq_true hb, Bool.and_true]
    exact hbits b hb
  · rw [hcovered b, decide_eq_true (lt_of_live hlive hb), Bool.and_true]
    exact hcovers b hb

theorem alignmentOffset_ok {evenLow qLow prime offset : Int}
    (h : alignmentOffset evenLow qLow prime = .ok offset) :
    evenLow = qLow + prime + 2 * offset := by
  unfold alignmentOffset requireNatural at h
  simp only [bind_ok, refuseIf_ok, pure_ok, exists_and_left, not_or, not_not, not_lt] at h
  obtain ⟨-, -, -, ⟨hnonneg, heven⟩, -, -, -, -, rfl⟩ := h
  omega

/-- The offset has the bit among the examined ones, or in the whole list. -/
def SomeHasBit (qWords : List Int) (outputWord : Int) (b : Nat) (offsets : List Int) : Prop :=
  ∃ o ∈ offsets, qBit qWords (o + 64 * outputWord + b) = true

/--
**Coverage, its acceptance and its replay.** The loop sets a live bit exactly when an
examined offset has it, accepts exactly when every live bit has an offset in the whole
list, and the replay returns the same answer. With aligned offsets every live even target
is then a flagged `q` plus one of the primes.
-/
theorem coverage_replay {qWords baseOffsets : List Int} {outputWord liveMask : Int}
    {r : CoverageWord} (h : coverageWord qWords baseOffsets outputWord liveMask = .ok r) :
    (∀ b, liveMask.toNat.testBit b = true → (r.covered.testBit b = true
        ↔ SomeHasBit qWords outputWord b (baseOffsets.take r.rounds)))
      ∧ (r.accepted = true ↔ ∀ b, liveMask.toNat.testBit b = true →
        SomeHasBit qWords outputWord b baseOffsets)
      ∧ replayLiveBits qWords baseOffsets outputWord liveMask = .ok r.accepted
      ∧ ∀ (evenLow qLow : Int) (primes : List Int),
        primes.mapM (alignmentOffset evenLow qLow) = .ok baseOffsets →
        r.accepted = true → ∀ b : Nat, liveMask.toNat.testBit b = true →
          ∃ p ∈ primes, ∃ i, qBit qWords i = true
            ∧ evenLow + 2 * (64 * outputWord + b) = (qLow + 2 * i) + p := by
  obtain ⟨hlive, hmask, hextracts, hbits, hstopped⟩ := coverageWord_ok h
  rw [hlive] at hmask hstopped
  have hcovered : ∀ b, liveMask.toNat.testBit b = true → (r.covered.testBit b = true
      ↔ SomeHasBit qWords outputWord b (baseOffsets.take r.rounds)) := by
    intro b hb
    rw [hbits b (lt_of_live hmask hb), Nat.zero_testBit]
    simp [SomeHasBit, HasBit, WORD_BITS]
  have haccepted : r.accepted = true ↔ CoversLive r.covered liveMask.toNat := by
    unfold CoverageWord.accepted
    rw [decide_eq_true_iff, and_eq_right_iff, hlive]
  have hwhole : r.accepted = true ↔ ∀ b, liveMask.toNat.testBit b = true →
      SomeHasBit qWords outputWord b baseOffsets := by
    rw [haccepted]
    constructor
    · intro hall b hb
      obtain ⟨o, ho, hbit⟩ := (hcovered b hb).mp (hall b hb)
      exact ⟨o, List.mem_of_mem_take ho, hbit⟩
    · intro hall b hb
      rcases hstopped with hlen | hcovers
      · -- nothing was left unexamined
        refine (hcovered b hb).mpr ?_
        rw [List.take_of_length_le hlen]
        exact hall b hb
      · exact hcovers b hb
  refine ⟨hcovered, hwhole, ?_, ?_⟩
  · unfold replayLiveBits
    rw [h]
    refine replayBits_ok fun b hb hlb => ?_
    obtain ⟨found, hfound, hiff⟩ := @anyOffset_ok qWords outputWord b r.rounds
      (List.mem_range.mp hb) baseOffsets hextracts <| by
        refine hstopped.imp id fun hcovers => ?_
        exact (hcovered b hlb).mp (hcovers b hlb)
    have hsame : found = r.covered.testBit b :=
      Bool.eq_iff_iff.mpr (hiff.trans (hcovered b hlb).symm)
    rw [hfound, hsame]
  · intro evenLow qLow primes hprimes hacc b hb
    obtain ⟨o, ho, hbit⟩ := hwhole.mp hacc b hb
    obtain ⟨p, hp, halign⟩ := Fallible.mapM_ok_mem hprimes ho
    have heven := alignmentOffset_ok halign
    exact ⟨p, hp, o + 64 * outputWord + b, hbit, by omega⟩

/-- Two offsets, an unaligned one and an aligned one, cover three live bits together. -/
theorem coverage_replay_two_offsets : replayLiveBits [6, 1] [1, 0] 0 7 = .ok true := by
  have hcover : coverageWord [6, 1] [1, 0] 0 7
      = .ok { covered := 2 ^ 63 + 7, rounds := 2, liveMask := 7 } := by decide
  exact (coverage_replay hcover).2.2.1

end AttestedCompute.Goldbach.ShiftedBitset
