import AttestedCompute.Ladder.Partition
import AttestedCompute.Ladder.Transitions

/-!
# Which packets have one spelling

An accepted packet is read back byte for byte from its meaning, except for the stationary
entries past `stationary_count`: no check reads them. The bits past the last sample of each
bitmap are checked.
-/

namespace AttestedCompute.Ladder

open Fallible (bind_ok)
open Bytes (at0_drop at0_take eq_of_at0)

/-- Two packets with one meaning. -/
structure SameMeaning (packet other : Bytes) : Prop where
  block : (readHeader packet).block = (readHeader other).block
  stationaryCount : (readHeader packet).stationaryCount = (readHeader other).stationaryCount
  stationary : ∀ index, index < (readHeader packet).stationaryCount.toNat →
    readBe32 packet (40 + index * 4) = readBe32 other (40 + index * 4)
  main : ∀ j, j < mainSamples → bitAt (mainBitmap packet) j = bitAt (mainBitmap other) j
  left : ∀ j, j < flankSamples → bitAt (leftBitmap packet) j = bitAt (leftBitmap other) j
  right : ∀ j, j < flankSamples → bitAt (rightBitmap packet) j = bitAt (rightBitmap other) j
  enclosures : ∀ i ∈ [72, 88, 104, 120], readEnclosure packet i = readEnclosure other i

/-- The stationary entries that the count leaves out. -/
def IsUnused (packet : Bytes) (index : Nat) : Prop :=
  (readHeader packet).stationaryCount.toNat ≤ index ∧ index < maxStationary

/-- The bits of a bitmap past its last sample are zero. -/
def PaddingZero (bitmap : Bytes) (samples bytes : Nat) : Prop :=
  ∀ j, samples ≤ j → j < 8 * bytes → bitAt bitmap j = 0

/-- The packet format: nothing is stored where nothing is meant. -/
structure UnusedZero (packet : Bytes) : Prop where
  stationary : ∀ index, IsUnused packet index → readBe32 packet (40 + index * 4) = 0
  main : PaddingZero (mainBitmap packet) mainSamples mainBitmapBytes
  left : PaddingZero (leftBitmap packet) flankSamples flankBitmapBytes
  right : PaddingZero (rightBitmap packet) flankSamples flankBitmapBytes

/-! ## Bytes -/

/-- A byte is its eight bits. -/
theorem at0_eq_of_bitAt {xs ys : Bytes} {k : Nat}
    (h : ∀ b, b < 8 → bitAt xs (8 * k + b) = bitAt ys (8 * k + b)) : xs.at0 k = ys.at0 k := by
  refine UInt8.toNat_inj.mp (Nat.eq_of_testBit_eq fun b => ?_)
  by_cases hb : b < 8
  · have hbit := h b hb
    rw [bitAt_byte xs k hb, bitAt_byte ys k hb] at hbit
    have hbool := congrArg Bool.ofNat hbit
    rwa [Bool.ofNat_toNat, Bool.ofNat_toNat] at hbool
  · have hhigh : ∀ bytes : Bytes, (bytes.at0 k).toNat.testBit b = false := fun bytes =>
      Nat.testBit_lt_two_pow ((bytes.at0 k).toNat_lt.trans_le
        (Nat.pow_le_pow_right (by decide) (not_lt.mp hb)))
    rw [hhigh xs, hhigh ys]

/-- The padding check is about the bits past the last sample. -/
theorem paddingZero_of_mask {bitmap : Bytes} {bytes : Nat} (hbytes : 0 < bytes)
    (h : bitmap.at0 (bytes - 1) &&& 0xFE = 0) :
    PaddingZero bitmap (8 * (bytes - 1) + 1) bytes := by
  intro j hlo hhi
  obtain ⟨b, rfl⟩ : ∃ b, j = 8 * (bytes - 1) + b := ⟨j - 8 * (bytes - 1), by omega⟩
  have hb : b < 8 := by omega
  have hmask := congrArg (fun byte : UInt8 => byte.toNat.testBit b) h
  simp only [UInt8.toNat_and, Nat.testBit_and] at hmask
  have hone : (0xFE : UInt8).toNat.testBit b = true := by
    have hcases : b = 1 ∨ b = 2 ∨ b = 3 ∨ b = 4 ∨ b = 5 ∨ b = 6 ∨ b = 7 := by omega
    rcases hcases with rfl | rfl | rfl | rfl | rfl | rfl | rfl <;> rfl
  rw [hone, Bool.and_true] at hmask
  rw [bitAt_byte bitmap _ hb, hmask]
  simp

/-- A bitmap is its samples and its padding. -/
theorem at0_eq_of_samples {xs ys : Bytes} {samples bytes : Nat}
    (h : ∀ j, j < samples → bitAt xs j = bitAt ys j) (hx : PaddingZero xs samples bytes)
    (hy : PaddingZero ys samples bytes) {k : Nat} (hk : k < bytes) : xs.at0 k = ys.at0 k := by
  refine at0_eq_of_bitAt fun b hb => ?_
  by_cases hj : 8 * k + b < samples
  · exact h _ hj
  · rw [hx _ (not_lt.mp hj) (by omega), hy _ (not_lt.mp hj) (by omega)]

/-! ## An accepted packet is determined by its meaning -/

/-- What acceptance says about the bytes of a packet. -/
structure Spelled (state : LadderState) (packet : Bytes) : Prop where
  length : packet.length = packetBytes
  magic : packet.take 8 = packetMagic
  lowerCount : (readHeader packet).lowerCount = state.runningCount
  closure : (readHeader packet).lowerCount + (readHeader packet).slots = (readHeader packet).upperCount
  count : (readHeader packet).stationaryCount.toNat ≤ maxStationary
  slots : (transitionCount (mainBitmap packet) mainSamples
    + 2 * (readHeader packet).stationaryCount).toUInt64 = (readHeader packet).slots
  main : PaddingZero (mainBitmap packet) mainSamples mainBitmapBytes
  left : PaddingZero (leftBitmap packet) flankSamples flankBitmapBytes
  right : PaddingZero (rightBitmap packet) flankSamples flankBitmapBytes

theorem spelled_of_checkPacket {state : LadderState} {packet : Bytes}
    (h : checkPacket state packet = .ok ()) : Spelled state packet := by
  simp only [checkPacket, bind_ok] at h
  obtain ⟨_, hheader, _, hslots, _, -, _, hpadding, -⟩ := h
  simp only [checkHeader, bind_ok, rejectIf_ok, decide_eq_false_iff_not, not_not, not_lt]
    at hheader
  obtain ⟨_, hlength, _, hmagic, _, -, _, hlower, _, -, _, hclosure, hcount⟩ := hheader
  simp only [checkSlots, rejectIf_ok, decide_eq_false_iff_not, not_not] at hslots
  simp only [checkPadding, bind_ok, rejectIf_ok, decide_eq_false_iff_not, not_not] at hpadding
  obtain ⟨_, hmain, _, hleft, hright⟩ := hpadding
  exact ⟨hlength, hmagic, hlower, hclosure, hcount, hslots, paddingZero_of_mask (by decide) hmain,
    paddingZero_of_mask (by decide) hleft, paddingZero_of_mask (by decide) hright⟩

/-- **Slot derivation.** The slot count is the number of sign changes of the main lattice and two
for each stationary cell. -/
theorem Spelled.slots_eq {state : LadderState} {packet : Bytes} (h : Spelled state packet) :
    (readHeader packet).slots.toNat
      = signChanges (mainBitmap packet) mainSamples + 2 * (readHeader packet).stationaryCount.toNat := by
  have hchanges := toNat_transitionCount (mainBitmap packet) (show mainSamples < 2 ^ 32 by decide)
  have hle : signChanges (mainBitmap packet) mainSamples ≤ 24576 := Nat.count_le _
  have hcount := h.count
  unfold maxStationary at hcount
  rw [← h.slots, UInt32.toNat_toUInt64, UInt32.toNat_add, UInt32.toNat_mul, hchanges]
  change (_ + 2 * (readHeader packet).stationaryCount.toNat % 2 ^ 32) % 2 ^ 32 = _
  rw [Nat.mod_eq_of_lt (by omega : 2 * (readHeader packet).stationaryCount.toNat < 2 ^ 32)]
  exact Nat.mod_eq_of_lt (by omega)

/-- The three bitmaps of two packets with one meaning are the same bytes. -/
theorem mainBitmap_eq {state : LadderState} {packet other : Bytes} (hp : Spelled state packet)
    (ho : Spelled state other) (h : SameMeaning packet other) :
    mainBitmap packet = mainBitmap other := by
  have hlen := hp.length
  have hlen' := ho.length
  unfold packetBytes at hlen hlen'
  refine eq_of_at0 (by simp [mainBitmap, hlen, hlen']) fun i hi => ?_
  rw [mainBitmap, List.length_drop, hlen, packetHeaderBytes] at hi
  by_cases hmain : i < mainBitmapBytes
  · exact at0_eq_of_samples h.main hp.main ho.main hmain
  · unfold mainBitmapBytes at hmain
    -- the flank bitmaps are further along in the main one
    have hleftAt : ∀ bytes : Bytes, ∀ k, (leftBitmap bytes).at0 k = (mainBitmap bytes).at0 (3073 + k) :=
      fun bytes k => at0_drop (mainBitmap bytes) mainBitmapBytes k
    have hrightAt : ∀ bytes : Bytes, ∀ k,
        (rightBitmap bytes).at0 k = (mainBitmap bytes).at0 (3138 + k) := by
      intro bytes k
      have hflank := at0_drop (leftBitmap bytes) flankBitmapBytes k
      rw [flankBitmapBytes, hleftAt, show 3073 + (65 + k) = 3138 + k by omega] at hflank
      exact hflank
    by_cases hflank : i < 3138
    · have hbyte := at0_eq_of_samples h.left hp.left ho.left
        (show i - 3073 < flankBitmapBytes by unfold flankBitmapBytes; omega)
      rwa [hleftAt, hleftAt, show 3073 + (i - 3073) = i by omega] at hbyte
    · have hbyte := at0_eq_of_samples h.right hp.right ho.right
        (show i - 3138 < flankBitmapBytes by unfold flankBitmapBytes; omega)
      rwa [hrightAt, hrightAt, show 3138 + (i - 3138) = i by omega] at hbyte

/-- The enclosures of two packets are the same 64 bytes. -/
theorem at0_eq_of_enclosures {packet other : Bytes} (h : SameMeaning packet other) {i : Nat}
    (hlo : 72 ≤ i) (hhi : i < 136) : packet.at0 i = other.at0 i := by
  have hword : ∀ j ∈ [72, 88, 104, 120], ∀ k, k < 16 → packet.at0 (j + k) = other.at0 (j + k) := by
    intro j hj k hk
    have henclosure := h.enclosures j hj
    have hfirst := congrArg Enclosure.lo henclosure
    have hsecond := congrArg Enclosure.hi henclosure
    unfold readEnclosure at hfirst hsecond
    dsimp only at hfirst hsecond
    rw [readBeI64_eq, readBeI64_eq] at hfirst hsecond
    by_cases hk8 : k < 8
    · exact readBe64_inj (toInt64_inj hfirst) hk8
    · have hbyte := readBe64_inj (toInt64_inj hsecond) (show k - 8 < 8 by omega)
      rwa [show j + 8 + (k - 8) = j + k by omega] at hbyte
  have hcases : i < 88 ∨ (88 ≤ i ∧ i < 104) ∨ (104 ≤ i ∧ i < 120) ∨ 120 ≤ i := by omega
  rcases hcases with h72 | h88 | h104 | h120
  · have hbyte := hword 72 (by simp) (i - 72) (by omega)
    rwa [show 72 + (i - 72) = i by omega] at hbyte
  · have hbyte := hword 88 (by simp) (i - 88) (by omega)
    rwa [show 88 + (i - 88) = i by omega] at hbyte
  · have hbyte := hword 104 (by simp) (i - 104) (by omega)
    rwa [show 104 + (i - 104) = i by omega] at hbyte
  · have hbyte := hword 120 (by simp) (i - 120) (by omega)
    rwa [show 120 + (i - 120) = i by omega] at hbyte

/-- **Meaning and unused entries determine an accepted packet.** -/
theorem eq_of_sameMeaning {state : LadderState} {packet other : Bytes} (hp : Spelled state packet)
    (ho : Spelled state other) (h : SameMeaning packet other)
    (hunused : ∀ index, IsUnused packet index →
      readBe32 packet (40 + index * 4) = readBe32 other (40 + index * 4)) : packet = other := by
  have hmain := mainBitmap_eq hp ho h
  have hslots : (readHeader packet).slots = (readHeader other).slots := by
    rw [← hp.slots, ← ho.slots, hmain, h.stationaryCount]
  have hlower : (readHeader packet).lowerCount = (readHeader other).lowerCount :=
    hp.lowerCount.trans ho.lowerCount.symm
  have hupper : (readHeader packet).upperCount = (readHeader other).upperCount := by
    rw [← hp.closure, ← ho.closure, hlower, hslots]
  have hslotWord : readBe32 packet 32 = readBe32 other 32 := by
    have hnat := congrArg UInt64.toNat hslots
    exact UInt32.toNat_inj.mp hnat
  have hlen := hp.length
  unfold packetBytes at hlen
  refine eq_of_at0 (hp.length.trans ho.length.symm) fun i hi => ?_
  have hcases : i < 8 ∨ (8 ≤ i ∧ i < 16) ∨ (16 ≤ i ∧ i < 24) ∨ (24 ≤ i ∧ i < 32)
      ∨ (32 ≤ i ∧ i < 36) ∨ (36 ≤ i ∧ i < 40) ∨ (40 ≤ i ∧ i < 72) ∨ (72 ≤ i ∧ i < 136)
      ∨ 136 ≤ i := by omega
  rcases hcases with h0 | h8 | h16 | h24 | h32 | h36 | h40 | h72 | h136
  · rw [← at0_take h0 packet, ← at0_take h0 other, hp.magic, ho.magic]
  · have hbyte := readBe64_inj h.block (show i - 8 < 8 by omega)
    rwa [show 8 + (i - 8) = i by omega] at hbyte
  · have hbyte := readBe64_inj hlower (show i - 16 < 8 by omega)
    rwa [show 16 + (i - 16) = i by omega] at hbyte
  · have hbyte := readBe64_inj hupper (show i - 24 < 8 by omega)
    rwa [show 24 + (i - 24) = i by omega] at hbyte
  · have hbyte := Sha256.readBe32_inj hslotWord (show i - 32 < 4 by omega)
    rwa [show 32 + (i - 32) = i by omega] at hbyte
  · have hbyte := Sha256.readBe32_inj h.stationaryCount (show i - 36 < 4 by omega)
    rwa [show 36 + (i - 36) = i by omega] at hbyte
  · -- an entry of the table is either used or unused
    have hentry : readBe32 packet (40 + (i - 40) / 4 * 4) = readBe32 other (40 + (i - 40) / 4 * 4) := by
      by_cases hused : (i - 40) / 4 < (readHeader packet).stationaryCount.toNat
      · exact h.stationary _ hused
      · exact hunused _ ⟨not_lt.mp hused, by unfold maxStationary; omega⟩
    have hbyte := Sha256.readBe32_inj hentry (show (i - 40) % 4 < 4 by omega)
    rwa [show 40 + (i - 40) / 4 * 4 + (i - 40) % 4 = i by omega] at hbyte
  · exact at0_eq_of_enclosures h h72.1 h72.2
  · have hbyte := congrArg (fun bytes : Bytes => bytes.at0 (i - 136)) hmain
    rw [mainBitmap, mainBitmap, at0_drop, at0_drop, packetHeaderBytes,
      show 136 + (i - 136) = i by omega] at hbyte
    exact hbyte

/-! ## Acceptance does not read the unused entries -/

theorem foldlM_congr_mem {α β ε : Type} {f g : β → α → Except ε β} (xs : List α)
    (h : ∀ b, ∀ a ∈ xs, f b a = g b a) (b : β) : xs.foldlM f b = xs.foldlM g b := by
  induction xs generalizing b with
  | nil => rfl
  | cons a rest ih =>
      rw [List.foldlM_cons, List.foldlM_cons, h b a List.mem_cons_self]
      exact congrArg (g b a >>= ·)
        (funext fun b' => ih (fun b a ha => h b a (List.mem_cons_of_mem _ ha)) b')

/-- The checks read the magic, the header, the used entries, the enclosures and the bitmaps. -/
theorem checkPacket_congr {packet other : Bytes} (hlen : packet.length = other.length)
    (hmagic : packet.take 8 = other.take 8) (hheader : readHeader packet = readHeader other)
    (hstationary : ∀ index, index < (readHeader packet).stationaryCount.toNat →
      readBe32 packet (40 + index * 4) = readBe32 other (40 + index * 4))
    (henclosures : ∀ i ∈ [72, 88, 104, 120], readEnclosure packet i = readEnclosure other i)
    (hmain : mainBitmap packet = mainBitmap other) (state : LadderState) :
    checkPacket state packet = checkPacket state other := by
  have hleft : leftBitmap packet = leftBitmap other := by rw [leftBitmap, hmain, leftBitmap]
  have hright : rightBitmap packet = rightBitmap other := by rw [rightBitmap, hleft, rightBitmap]
  have hcells : checkStationary packet = checkStationary other := by
    unfold checkStationary
    rw [← hheader]
    refine congrArg (· >>= _) (foldlM_congr_mem _ (fun previousCell index hindex => ?_) 0)
    unfold checkStationaryCell
    rw [hstationary index (List.mem_range.mp hindex), hmain]
  have hintervals : checkIntervals packet = checkIntervals other := by
    unfold checkIntervals
    rw [henclosures 72 (by simp), henclosures 88 (by simp), henclosures 104 (by simp),
      henclosures 120 (by simp)]
  have hquotients : ∀ l r, turingQuotients packet l r = turingQuotients other l r := by
    intro l r
    unfold turingQuotients
    rw [henclosures 72 (by simp), henclosures 88 (by simp), henclosures 104 (by simp),
      henclosures 120 (by simp)]
  have hweights : flankWeights packet = flankWeights other := by
    unfold flankWeights
    rw [hleft, hright]
  unfold checkPacket
  rw [hcells]
  unfold checkHeader checkSlots checkPadding checkParity checkBoundary checkTuring
  rw [hlen, hmagic, hheader, hmain, hleft, hright, hintervals, hweights]
  simp only [hquotients]

/-- A packet with another last stationary entry. -/
def withLastEntry (packet : Bytes) (byte : UInt8) : Bytes := packet.set 71 byte

theorem at0_withLastEntry (packet : Bytes) (byte : UInt8) {i : Nat} (h : i ≠ 71) :
    (withLastEntry packet byte).at0 i = packet.at0 i := by
  rw [withLastEntry, Bytes.at0, Bytes.at0, List.getD_eq_getElem?_getD, List.getD_eq_getElem?_getD,
    List.getElem?_set_ne (Ne.symm h)]

theorem readBe32_withLastEntry (packet : Bytes) (byte : UInt8) {i : Nat} (h : i ≤ 67 ∨ 72 ≤ i) :
    readBe32 (withLastEntry packet byte) i = readBe32 packet i := by
  unfold readBe32 Sha256.readBe32
  rw [at0_withLastEntry packet byte (by omega), at0_withLastEntry packet byte (by omega),
    at0_withLastEntry packet byte (by omega), at0_withLastEntry packet byte (by omega)]

theorem readBe64_withLastEntry (packet : Bytes) (byte : UInt8) {i : Nat} (h : i ≤ 63 ∨ 72 ≤ i) :
    readBe64 (withLastEntry packet byte) i = readBe64 packet i := by
  unfold readBe64
  rw [readBe32_withLastEntry packet byte (by omega), readBe32_withLastEntry packet byte (by omega)]

theorem readHeader_withLastEntry (packet : Bytes) (byte : UInt8) :
    readHeader (withLastEntry packet byte) = readHeader packet := by
  unfold readHeader
  rw [readBe64_withLastEntry packet byte (.inl (by decide)),
    readBe64_withLastEntry packet byte (.inl (by decide)),
    readBe64_withLastEntry packet byte (.inl (by decide)),
    readBe32_withLastEntry packet byte (.inl (by decide)),
    readBe32_withLastEntry packet byte (.inl (by decide))]

theorem readEnclosure_withLastEntry (packet : Bytes) (byte : UInt8) {i : Nat} (h : 72 ≤ i) :
    readEnclosure (withLastEntry packet byte) i = readEnclosure packet i := by
  unfold readEnclosure readBeI64
  rw [readBe64_withLastEntry packet byte (.inr h), readBe64_withLastEntry packet byte (by omega)]

theorem mainBitmap_withLastEntry (packet : Bytes) (byte : UInt8) :
    mainBitmap (withLastEntry packet byte) = mainBitmap packet :=
  List.drop_set_of_lt (by decide)

/-- A table with room has an unused last entry, which nobody reads. -/
theorem sameMeaning_withLastEntry {packet : Bytes} (byte : UInt8)
    (h : (readHeader packet).stationaryCount.toNat < maxStationary) :
    SameMeaning packet (withLastEntry packet byte) := by
  unfold maxStationary at h
  have hmain := mainBitmap_withLastEntry packet byte
  have hheader := readHeader_withLastEntry packet byte
  constructor
  case block => rw [hheader]
  case stationaryCount => rw [hheader]
  case stationary =>
    intro index hindex
    exact (readBe32_withLastEntry packet byte (.inl (by omega))).symm
  case main => intro j _; rw [hmain]
  case left => intro j _; rw [leftBitmap, leftBitmap, hmain]
  case right => intro j _; rw [rightBitmap, rightBitmap, leftBitmap, leftBitmap, hmain]
  case enclosures =>
    intro i hi
    refine (readEnclosure_withLastEntry packet byte ?_).symm
    simp only [List.mem_cons, List.not_mem_nil, or_false] at hi
    omega

theorem checkPacket_withLastEntry {packet : Bytes} (byte : UInt8)
    (h : (readHeader packet).stationaryCount.toNat < maxStationary) (state : LadderState) :
    checkPacket state (withLastEntry packet byte) = checkPacket state packet := by
  have hsame := sameMeaning_withLastEntry byte h
  exact (checkPacket_congr (List.length_set ..).symm (List.take_set_of_le (by decide)).symm
    (readHeader_withLastEntry packet byte).symm hsame.stationary hsame.enclosures
    (mainBitmap_withLastEntry packet byte).symm state).symm

theorem withLastEntry_ne {packet : Bytes} (hlen : packet.length = packetBytes) {byte : UInt8}
    (h : packet.at0 71 ≠ byte) : packet ≠ withLastEntry packet byte := by
  intro heq
  have hlt : 71 < packet.length := by rw [hlen]; decide
  have hbyte := congrArg (fun bytes : Bytes => bytes.at0 71) heq
  rw [withLastEntry, Bytes.at0, Bytes.at0, List.getD_eq_getElem?_getD, List.getD_eq_getElem?_getD,
    List.getElem?_set_self hlt] at hbyte
  rw [Bytes.at0, List.getD_eq_getElem?_getD] at h
  exact h hbyte

/-! ## Canonicality -/

/-- The packet is the only accepted spelling of its meaning, and is zero where it means nothing. -/
def Canonical (state : LadderState) (packet : Bytes) : Prop :=
  (∀ other out, (ladderStep state other out).1 = .ok () → SameMeaning packet other → packet = other)
    ∧ UnusedZero packet

/-- With a full table nothing is unused. -/
theorem canonical_of_full {state : LadderState} {packet : Bytes}
    (haccepted : checkPacket state packet = .ok ())
    (hfull : (readHeader packet).stationaryCount.toNat = maxStationary) :
    Canonical state packet := by
  have hspelled := spelled_of_checkPacket haccepted
  have hused : ∀ index, ¬ IsUnused packet index := by
    intro index h
    have hlt := h.2
    have hle := h.1
    omega
  refine ⟨fun other out hother hsame => ?_, ?_⟩
  · rw [ladderStep_fst] at hother
    exact eq_of_sameMeaning hspelled (spelled_of_checkPacket hother) hsame
      fun index h => absurd h (hused index)
  · exact ⟨fun index h => absurd h (hused index), hspelled.main, hspelled.left, hspelled.right⟩

/-- With room in the table there is a second spelling. -/
theorem not_canonical_of_room {state : LadderState} {packet : Bytes} (out : StepOut)
    (haccepted : checkPacket state packet = .ok ())
    (hroom : (readHeader packet).stationaryCount.toNat < maxStationary) :
    ¬ Canonical state packet := by
  intro hcanonical
  have hlen := (spelled_of_checkPacket haccepted).length
  obtain ⟨byte, hbyte⟩ : ∃ byte : UInt8, packet.at0 71 ≠ byte := by
    by_cases hzero : packet.at0 71 = 0
    · exact ⟨1, by rw [hzero]; decide⟩
    · exact ⟨0, hzero⟩
  refine withLastEntry_ne hlen hbyte (hcanonical.1 _ out ?_ (sameMeaning_withLastEntry byte hroom))
  rw [ladderStep_fst, checkPacket_withLastEntry byte hroom, haccepted]

/--
**Packet canonicality.** In a state reached after a start, an accepted packet is canonical
exactly when its stationary table is full; and two accepted packets with one meaning are
equal exactly when their unused stationary entries are.
-/
theorem packet_canonical_iff (firstBlock firstCount : UInt64) (blocksPerGroup : UInt32)
    (commitPackets : Bool) :
    ∀ calls state, runCalls (ladderStart firstBlock firstCount blocksPerGroup commitPackets) calls
        = some state →
    ∀ packet out, (ladderStep state packet out).1 = .ok () →
      (Canonical state packet ↔ (readHeader packet).stationaryCount.toNat = maxStationary)
      ∧ ∀ other out', (ladderStep state other out').1 = .ok () → SameMeaning packet other →
        (packet = other ↔ ∀ index, IsUnused packet index →
          readBe32 packet (40 + index * 4) = readBe32 other (40 + index * 4)) := by
  intro calls state _ packet out haccepted
  rw [ladderStep_fst] at haccepted
  have hspelled := spelled_of_checkPacket haccepted
  refine ⟨⟨fun hcanonical => ?_, canonical_of_full haccepted⟩, fun other out' hother hsame => ?_⟩
  · by_contra hne
    exact not_canonical_of_room out haccepted (lt_of_le_of_ne hspelled.count hne) hcanonical
  · rw [ladderStep_fst] at hother
    refine ⟨fun heq => ?_, eq_of_sameMeaning hspelled (spelled_of_checkPacket hother) hsame⟩
    intro index _
    rw [heq]

/-- A table with one entry is not canonical. -/
theorem packet_canonical_iff_first :
    ¬ Canonical (ladderStart 0 1 1 false) (quietPacket 0 1 3 0 43008) := by
  have haccepted : (ladderStep (ladderStart 0 1 1 false) (quietPacket 0 1 3 0 43008) blankOut).1
      = .ok () := by
    rw [ladderStep_fst, checkPacket_firstPacket]
  have hiff := (packet_canonical_iff 0 1 1 false [] _ rfl _ blankOut haccepted).1
  rw [hiff]
  decide +kernel

/-- **Two spellings of one packet.** The second has `1` in the last, unused stationary entry. -/
theorem packet_two_spellings :
    Reachable (ladderStart 0 1 1 false)
      ∧ (ladderStep (ladderStart 0 1 1 false) (quietPacket 0 1 3 0 43008) blankOut).1 = .ok ()
      ∧ (ladderStep (ladderStart 0 1 1 false) (withLastEntry (quietPacket 0 1 3 0 43008) 1)
          blankOut).1 = .ok ()
      ∧ SameMeaning (quietPacket 0 1 3 0 43008) (withLastEntry (quietPacket 0 1 3 0 43008) 1)
      ∧ quietPacket 0 1 3 0 43008 ≠ withLastEntry (quietPacket 0 1 3 0 43008) 1 := by
  have hroom : (readHeader (quietPacket 0 1 3 0 43008)).stationaryCount.toNat < maxStationary := by
    decide +kernel
  have hlen := (spelled_of_checkPacket checkPacket_firstPacket).length
  refine ⟨reachable_start 0 1 1 false, ?_, ?_, sameMeaning_withLastEntry 1 hroom,
    withLastEntry_ne hlen (by decide +kernel)⟩
  · rw [ladderStep_fst, checkPacket_firstPacket]
  · rw [ladderStep_fst, checkPacket_withLastEntry 1 hroom, checkPacket_firstPacket]

end AttestedCompute.Ladder
