import AttestedCompute.Ladder.Word

/-!
# The streaming ladder checker

`pt21_ladder_start`, `pt21_ladder_step` and `pt21_ladder_finish`: one 3339-byte
packet per source block, checked against a constant-size rolling state and folded
into the digest of the open group. A group record is written when the group
reaches `blocks_per_group`, and once more at the end for a partial group.

The checks of one packet are separate definitions in the order of the source, so
that a proof which needs one of them does not walk through the others.
-/

namespace AttestedCompute.Ladder

def mainSamples : Nat := 24577
def mainSpanSteps : Nat := 24576
def mainBitmapBytes : Nat := 3073
def flankSamples : Nat := 513
def flankSpanSteps : Nat := 512
def flankBitmapBytes : Nat := 65
def maxStationary : Nat := 8
def packetHeaderBytes : Nat := 136
def packetBytes : Nat := 3339
def groupRecordBytes : Nat := 88
/-- `PT21_SCALE` -/
def scale : Int := 1024
/-- `PT21_FLANK_WIDTH` -/
def flankWidth : Int := 21
/-- `PT21_DELTA_NUMERATOR` -/
def deltaNumerator : Int := 21

/-- `pt21_packet_magic` -/
def packetMagic : Bytes := [0x50, 0x54, 0x32, 0x31, 0x4C, 0x30, 0x01, 0x00]

/-- `pt21_window_summary` -/
structure WindowSummary where
  block : UInt64
  lowerCount : UInt64
  slots : UInt64
  upperCount : UInt64
  deriving DecidableEq, Repr

/-- `pt21_ladder_state` -/
structure LadderState where
  nextBlock : UInt64
  runningCount : UInt64
  groupFirstBlock : UInt64
  groupFirstCount : UInt64
  groupBlocks : UInt64
  groupSlots : UInt64
  groupDigestState : Sha256.State
  groupDigestLength : UInt64
  rootState : Sha256.State
  rootLength : UInt64
  groupsEmitted : UInt64
  blocksPerGroup : UInt32
  /-- The C `int` flag: nonzero commits to the packet bytes. -/
  commitPackets : Bool
  deriving DecidableEq, Repr

/-! ## Bit and lattice helpers -/

/-- `pt21_popcount_table` -/
def popcountTable : List UInt8 := [
  0,1,1,2,1,2,2,3,1,2,2,3,2,3,3,4, 1,2,2,3,2,3,3,4,2,3,3,4,3,4,4,5,
  1,2,2,3,2,3,3,4,2,3,3,4,3,4,4,5, 2,3,3,4,3,4,4,5,3,4,4,5,4,5,5,6,
  1,2,2,3,2,3,3,4,2,3,3,4,3,4,4,5, 2,3,3,4,3,4,4,5,3,4,4,5,4,5,5,6,
  2,3,3,4,3,4,4,5,3,4,4,5,4,5,5,6, 3,4,4,5,4,5,5,6,4,5,5,6,5,6,6,7,
  1,2,2,3,2,3,3,4,2,3,3,4,3,4,4,5, 2,3,3,4,3,4,4,5,3,4,4,5,4,5,5,6,
  2,3,3,4,3,4,4,5,3,4,4,5,4,5,5,6, 3,4,4,5,4,5,5,6,4,5,5,6,5,6,6,7,
  2,3,3,4,3,4,4,5,3,4,4,5,4,5,5,6, 3,4,4,5,4,5,5,6,4,5,5,6,5,6,6,7,
  3,4,4,5,4,5,5,6,4,5,5,6,5,6,6,7, 4,5,5,6,5,6,6,7,5,6,6,7,6,7,7,8]

/-- `pt21_bit_at` -/
def bitAt (bitmap : Bytes) (index : Nat) : Nat :=
  ((bitmap.at0 (index >>> 3)).toNat >>> (index &&& 7)) &&& 1

/-- The transitions that byte `index` contributes: those inside the byte, by popcount, and the
one into the next byte. -/
def byteTransitions (bitmap : Bytes) (index : Nat) : UInt32 :=
  let current := bitmap.at0 index
  let next := bitmap.at0 (index + 1)
  let inner := (current ^^^ (current >>> 1)) &&& 0x7F
  (popcountTable.getD inner.toNat 0).toUInt32
    + if (current.toUInt32 >>> 7) &&& 1 ≠ next.toUInt32 &&& 1 then 1 else 0

/-- `pt21_transition_count` -/
def transitionCount (bitmap : Bytes) (samples : Nat) : UInt32 :=
  let fullBytes := (samples - 1) >>> 3
  let body := (List.range fullBytes).foldl (fun total index => total + byteTransitions bitmap index) 0
  let tailStart := fullBytes <<< 3
  (List.range' tailStart (samples - 1 - tailStart)).foldl
    (fun total index => if bitAt bitmap index ≠ bitAt bitmap (index + 1) then total + 1 else total)
    body

/-- `pt21_left_weight` -/
def leftWeight (bitmap : Bytes) (samples : Nat) : Except Fault Int := do
  let total ← (List.range (samples - 1)).foldlM (fun (total : Int) index =>
    if bitAt bitmap index ≠ bitAt bitmap (index + 1) then int64 (total + index) else pure total) 0
  int64 (-total)

/-- `pt21_right_weight` -/
def rightWeight (bitmap : Bytes) (samples spanSteps : Nat) : Except Fault Int :=
  (List.range (samples - 1)).foldlM (fun (total : Int) index =>
    if bitAt bitmap index ≠ bitAt bitmap (index + 1) then
      int64 (total + ((spanSteps - (index + 1) : Nat) : Int))
    else pure total) 0

/-- `pt21_floor_div`: C division truncates, so a negative inexact quotient is lowered. -/
def floorDiv (numerator divisor : Int) : Except Fault Int :=
  let quotient := numerator.tdiv divisor
  if numerator.tmod divisor ≠ 0 ∧ numerator < 0 then int64 (quotient - 1) else pure quotient

/-- `pt21_ceil_div` -/
def ceilDiv (numerator divisor : Int) : Except Fault Int :=
  let quotient := numerator.tdiv divisor
  if numerator.tmod divisor ≠ 0 ∧ numerator > 0 then int64 (quotient + 1) else pure quotient

/-! ## The checks of one packet -/

/-- The decoded header fields of a packet. -/
structure PacketHeader where
  block : UInt64
  lowerCount : UInt64
  upperCount : UInt64
  slots : UInt64
  stationaryCount : UInt32
  deriving DecidableEq, Repr

def readHeader (packet : Bytes) : PacketHeader :=
  { block := readBe64 packet 8
    lowerCount := readBe64 packet 16
    upperCount := readBe64 packet 24
    slots := (readBe32 packet 32).toUInt64
    stationaryCount := readBe32 packet 36 }

def mainBitmap (packet : Bytes) : Bytes := packet.drop packetHeaderBytes
def leftBitmap (packet : Bytes) : Bytes := (mainBitmap packet).drop mainBitmapBytes
def rightBitmap (packet : Bytes) : Bytes := (leftBitmap packet).drop flankBitmapBytes

/-- Length, magic, cursors and slot closure. -/
def checkHeader (state : LadderState) (packet : Bytes) : Except Fault Unit := do
  rejectIf (packet.length ≠ packetBytes) .length
  rejectIf (packet.take 8 ≠ packetMagic) .magic
  let header := readHeader packet
  rejectIf (header.block ≠ state.nextBlock) .blockIndex
  rejectIf (header.lowerCount ≠ state.runningCount) .countCursor
  rejectIf (header.lowerCount = 0) .geometry
  rejectIf (header.lowerCount + header.slots ≠ header.upperCount) .slotClosure
  rejectIf (header.stationaryCount.toNat > maxStationary) .stationary

/-- (1) The slot count is derived from the bitmap. -/
def checkSlots (packet : Bytes) : Except Fault Unit :=
  let header := readHeader packet
  let transitions := transitionCount (mainBitmap packet) mainSamples
  let derivedSlots := transitions + 2 * header.stationaryCount
  rejectIf (derivedSlots.toUInt64 ≠ header.slots) .slotDerivation

/-- One stationary cell: inside the lattice, past its predecessor, not on a sign change. -/
def checkStationaryCell (packet : Bytes) (previousCell : UInt32) (index : Nat) :
    Except Fault UInt32 := do
  let cell := readBe32 packet (40 + index * 4)
  rejectIf (cell.toNat ≥ mainSpanSteps) .stationary
  rejectIf (index > 0 ∧ cell ≤ previousCell) .stationary
  rejectIf (bitAt (mainBitmap packet) cell.toNat ≠ bitAt (mainBitmap packet) (cell.toNat + 1))
    .stationary
  pure cell

/-- (2) The stationary cells in order. -/
def checkStationary (packet : Bytes) : Except Fault Unit := do
  let _ ← (List.range (readHeader packet).stationaryCount.toNat).foldlM
    (checkStationaryCell packet) 0
  pure ()

/-- (2b) Bits past the last sample of each bitmap are zero. -/
def checkPadding (packet : Bytes) : Except Fault Unit := do
  rejectIf ((mainBitmap packet).at0 (mainBitmapBytes - 1) &&& 0xFE ≠ 0) .geometry
  rejectIf ((leftBitmap packet).at0 (flankBitmapBytes - 1) &&& 0xFE ≠ 0) .geometry
  rejectIf ((rightBitmap packet).at0 (flankBitmapBytes - 1) &&& 0xFE ≠ 0) .geometry

/-- (3) The main endpoints agree exactly when the slot count is even. -/
def checkParity (packet : Bytes) : Except Fault Unit :=
  let leftSign := bitAt (mainBitmap packet) 0
  let rightSign := bitAt (mainBitmap packet) (mainSamples - 1)
  let equalSigns : Nat := if leftSign = rightSign then 1 else 0
  let evenSlots : Nat := if (readHeader packet).slots &&& 1 = 0 then 1 else 0
  rejectIf (equalSigns ≠ evenSlots) .parity

/-- (4) Shared endpoints of the three streams agree. -/
def checkBoundary (packet : Bytes) : Except Fault Unit := do
  rejectIf (bitAt (leftBitmap packet) (flankSamples - 1) ≠ bitAt (mainBitmap packet) 0)
    .boundarySign
  rejectIf (bitAt (mainBitmap packet) (mainSamples - 1) ≠ bitAt (rightBitmap packet) 0)
    .boundarySign

/-- A one-sided interval as the packet carries it. -/
structure Enclosure where
  lo : Int
  hi : Int
  deriving DecidableEq, Repr

def readEnclosure (packet : Bytes) (i : Nat) : Enclosure :=
  { lo := readBeI64 packet i, hi := readBeI64 packet (i + 8) }

/-- The four enclosures are ordered and the two `S(t)` bounds nonnegative. -/
def checkIntervals (packet : Bytes) : Except Fault Unit :=
  let sLower := readEnclosure packet 72
  let commonLower := readEnclosure packet 88
  let sUpper := readEnclosure packet 104
  let commonUpper := readEnclosure packet 120
  rejectIf (sLower.lo > sLower.hi ∨ commonLower.lo > commonLower.hi ∨ sUpper.lo > sUpper.hi
    ∨ commonUpper.lo > commonUpper.hi ∨ sLower.lo < 0 ∨ sUpper.lo < 0) .interval

/-- The flank weights, derived from the flank bitmaps. -/
def flankWeights (packet : Bytes) : Except Fault (Int × Int) := do
  let left ← leftWeight (leftBitmap packet) flankSamples
  let right ← rightWeight (rightBitmap packet) flankSamples flankSpanSteps
  rejectIf (left > 0 ∨ right < 0) .interval
  pure (left, right)

/-- `-hi - integral + common`, the left-flank numerator at one end. -/
def lowerNumerator (sBound integral common : Int) : Except Fault Int := do
  let negated ← int64 (-sBound)
  let shifted ← int64 (negated - integral)
  int64 (shifted + common)

/-- `s - integral + common`, the right-flank numerator at one end. -/
def upperNumerator (sBound integral common : Int) : Except Fault Int := do
  let shifted ← int64 (sBound - integral)
  int64 (shifted + common)

/-- The enclosure of the two Turing quotients at scale `2^10`. -/
def turingQuotients (packet : Bytes) (left right : Int) : Except Fault (Enclosure × Enclosure) := do
  let sLower := readEnclosure packet 72
  let commonLower := readEnclosure packet 88
  let sUpper := readEnclosure packet 104
  let commonUpper := readEnclosure packet 120
  let leftIntegral ← int64 (left * (deltaNumerator * 2))
  let rightIntegral ← int64 (right * (deltaNumerator * 2))
  let lowerNumLo ← lowerNumerator sLower.hi leftIntegral commonLower.lo
  let lowerNumHi ← lowerNumerator sLower.lo leftIntegral commonLower.hi
  let upperNumLo ← upperNumerator sUpper.lo rightIntegral commonUpper.lo
  let upperNumHi ← upperNumerator sUpper.hi rightIntegral commonUpper.hi
  let lowerLo ← floorDiv lowerNumLo flankWidth
  let lowerHi ← ceilDiv lowerNumHi flankWidth
  let upperLo ← floorDiv upperNumLo flankWidth
  let upperHi ← ceilDiv upperNumHi flankWidth
  pure (⟨lowerLo, lowerHi⟩, ⟨upperLo, upperHi⟩)

/-- The count above which the checker refuses to do target arithmetic, `2^53`. -/
def countLimit : UInt64 := 9007199254740992

/-- The ceiling and floor cells the quotients must fall in. -/
def checkTargets (header : PacketHeader) (lower upper : Enclosure) : Except Fault Unit := do
  rejectIf (header.upperCount > countLimit) .overflow
  let ceilTarget ← int64 (toInt64 header.lowerCount - 1)
  let floorTarget ← int64 (toInt64 header.upperCount - 1)
  -- ceil(q) = ceilTarget iff ceilTarget - 1 < q <= ceilTarget
  let below ← int64 (ceilTarget - 1)
  let belowScaled ← int64 (below * scale)
  rejectIf (¬ belowScaled < lower.lo) .turingLower
  let ceilScaled ← int64 (ceilTarget * scale)
  rejectIf (¬ lower.hi ≤ ceilScaled) .turingLower
  -- floor(q) = floorTarget iff floorTarget <= q < floorTarget + 1
  let floorScaled ← int64 (floorTarget * scale)
  rejectIf (¬ floorScaled ≤ upper.lo) .turingUpper
  let above ← int64 (floorTarget + 1)
  let aboveScaled ← int64 (above * scale)
  rejectIf (¬ upper.hi < aboveScaled) .turingUpper

/-- (5) Turing arithmetic. -/
def checkTuring (packet : Bytes) : Except Fault Unit := do
  checkIntervals packet
  let (left, right) ← flankWeights packet
  let (lower, upper) ← turingQuotients packet left right
  checkTargets (readHeader packet) lower upper

/-- Everything `pt21_ladder_step` checks before it writes anything. -/
def checkPacket (state : LadderState) (packet : Bytes) : Except Fault Unit := do
  checkHeader state packet
  checkSlots packet
  checkStationary packet
  checkPadding packet
  checkParity packet
  checkBoundary packet
  checkTuring packet

/-! ## Folding and emitting -/

/-- `pt21_ladder_start` -/
def ladderStart (firstBlock firstCount : UInt64) (blocksPerGroup : UInt32) (commitPackets : Bool) :
    LadderState :=
  { nextBlock := firstBlock
    runningCount := firstCount
    groupFirstBlock := firstBlock
    groupFirstCount := firstCount
    groupBlocks := 0
    groupSlots := 0
    groupDigestState := Sha256.init
    groupDigestLength := 0
    rootState := Sha256.init
    rootLength := 0
    groupsEmitted := 0
    blocksPerGroup := blocksPerGroup
    commitPackets := commitPackets }

/-- The 64-byte level-1 commitment block of a window. -/
def windowRecord (summary : WindowSummary) (packetDigest : Bytes) : Bytes :=
  writeBe64 summary.block ++ writeBe64 summary.lowerCount ++ writeBe64 summary.slots
    ++ writeBe64 summary.upperCount ++ packetDigest

/-- `pt21_fold_window` -/
def foldWindow (state : LadderState) (summary : WindowSummary) (packetDigest : Bytes) :
    LadderState :=
  { state with
    groupDigestState := sha256Absorb state.groupDigestState (windowRecord summary packetDigest) 1
    groupDigestLength := state.groupDigestLength + 64 }

/-- The 88-byte group record `pt21_emit_group` writes. -/
def groupRecord (state : LadderState) : Bytes :=
  writeBe64 state.groupFirstBlock ++ writeBe64 state.groupBlocks
    ++ writeBe64 state.groupFirstCount ++ writeBe64 state.groupSlots
    ++ writeBe64 state.runningCount
    ++ sha256Finalize state.groupDigestState [] state.groupDigestLength
    ++ writeBe64 state.groupsEmitted ++ writeBe64 0

/-- SHA-256 of a group record, as `pt21_emit_group` streams it. -/
def recordDigest (record : Bytes) : Bytes :=
  sha256Finalize (sha256Absorb Sha256.init record 1) (record.drop 64) 88

/-- The 64-byte block that chains a group record into the campaign root. -/
def rootInput (state : LadderState) (record : Bytes) : Bytes :=
  recordDigest record ++ writeBe64 state.groupsEmitted ++ writeBe64 state.groupFirstBlock
    ++ writeBe64 state.groupBlocks ++ writeBe64 state.groupSlots

/-- `pt21_emit_group` -/
def emitGroup (state : LadderState) : LadderState × Bytes :=
  let record := groupRecord state
  ({ state with
     rootState := sha256Absorb state.rootState (rootInput state record) 1
     rootLength := state.rootLength + 64
     groupsEmitted := state.groupsEmitted + 1
     groupFirstBlock := state.nextBlock
     groupFirstCount := state.runningCount
     groupBlocks := 0
     groupSlots := 0
     groupDigestState := Sha256.init
     groupDigestLength := 0 }, record)

section

variable (state : LadderState)

@[simp] theorem emitGroup_record : (emitGroup state).2 = groupRecord state := by rw [emitGroup]

@[simp] theorem emitGroup_commitPackets : (emitGroup state).1.commitPackets = state.commitPackets := by
  rw [emitGroup]

@[simp] theorem emitGroup_blocksPerGroup : (emitGroup state).1.blocksPerGroup = state.blocksPerGroup := by
  rw [emitGroup]

@[simp] theorem emitGroup_groupFirstBlock : (emitGroup state).1.groupFirstBlock = state.nextBlock := by
  rw [emitGroup]

@[simp] theorem emitGroup_groupFirstCount : (emitGroup state).1.groupFirstCount = state.runningCount := by
  rw [emitGroup]

@[simp] theorem emitGroup_groupBlocks : (emitGroup state).1.groupBlocks = 0 := by
  rw [emitGroup]

@[simp] theorem emitGroup_groupSlots : (emitGroup state).1.groupSlots = 0 := by
  rw [emitGroup]

@[simp] theorem emitGroup_nextBlock : (emitGroup state).1.nextBlock = state.nextBlock := by
  rw [emitGroup]

@[simp] theorem emitGroup_runningCount : (emitGroup state).1.runningCount = state.runningCount := by
  rw [emitGroup]

@[simp] theorem emitGroup_groupDigestState : (emitGroup state).1.groupDigestState = Sha256.init := by
  rw [emitGroup]

@[simp] theorem emitGroup_groupDigestLength : (emitGroup state).1.groupDigestLength = 0 := by
  rw [emitGroup]

end

/-- The commitment to the packet bytes, all zero when commitment is off. -/
def packetDigest (commitPackets : Bool) (packet : Bytes) : Bytes :=
  if commitPackets then
    sha256Finalize (sha256Absorb Sha256.init packet (packetBytes / 64))
      (packet.drop (packetBytes / 64 * 64)) packetBytes.toUInt64
  else List.replicate 32 0

/-- The window summary decoded from an accepted packet. -/
def packetSummary (packet : Bytes) : WindowSummary :=
  let header := readHeader packet
  { block := header.block, lowerCount := header.lowerCount
    slots := header.slots, upperCount := header.upperCount }

/-- (6) Commit to the packet, fold the level-1 summary and move the cursors. -/
def advance (state : LadderState) (packet : Bytes) : LadderState :=
  let summary := packetSummary packet
  let folded := foldWindow state summary (packetDigest state.commitPackets packet)
  { folded with
    nextBlock := summary.block + 1
    runningCount := summary.upperCount
    groupBlocks := folded.groupBlocks + 1
    groupSlots := folded.groupSlots + summary.slots }

section

variable (state : LadderState) (packet : Bytes)

@[simp] theorem advance_commitPackets : (advance state packet).commitPackets = state.commitPackets := by
  rw [advance, foldWindow]

@[simp] theorem advance_blocksPerGroup : (advance state packet).blocksPerGroup = state.blocksPerGroup := by
  rw [advance, foldWindow]

@[simp] theorem advance_groupFirstBlock : (advance state packet).groupFirstBlock = state.groupFirstBlock := by
  rw [advance, foldWindow]

@[simp] theorem advance_groupFirstCount : (advance state packet).groupFirstCount = state.groupFirstCount := by
  rw [advance, foldWindow]

@[simp] theorem advance_groupBlocks : (advance state packet).groupBlocks = state.groupBlocks + 1 := by
  rw [advance, foldWindow]

@[simp] theorem advance_groupSlots : (advance state packet).groupSlots = state.groupSlots + (packetSummary packet).slots := by
  rw [advance, foldWindow]

@[simp] theorem advance_nextBlock : (advance state packet).nextBlock = (packetSummary packet).block + 1 := by
  rw [advance, foldWindow]

@[simp] theorem advance_runningCount : (advance state packet).runningCount = (packetSummary packet).upperCount := by
  rw [advance, foldWindow]

@[simp] theorem advance_groupDigestLength : (advance state packet).groupDigestLength = state.groupDigestLength + 64 := by
  rw [advance, foldWindow]

@[simp] theorem advance_groupDigestState : (advance state packet).groupDigestState
    = sha256Absorb state.groupDigestState
        (windowRecord (packetSummary packet) (packetDigest state.commitPackets packet)) 1 := by
  rw [advance, foldWindow]

end

/-- An accepted packet advances the state; a group that is then full is emitted. -/
def acceptPacket (state : LadderState) (packet : Bytes) : LadderState × Option Bytes :=
  let advanced := advance state packet
  if advanced.groupBlocks = advanced.blocksPerGroup.toUInt64 then
    let (emitted, record) := emitGroup advanced
    (emitted, some record)
  else (advanced, none)

/-- The caller's out-parameters. -/
structure StepOut where
  summary : WindowSummary
  groupRecord : Bytes
  groupReady : Bool
  deriving DecidableEq, Repr

/-- `pt21_ladder_step`, out-parameters included. -/
def ladderStep (state : LadderState) (packet : Bytes) (out : StepOut) :
    Except Fault Unit × LadderState × StepOut :=
  let out := { out with groupReady := false }
  match checkPacket state packet with
  | .error e => (.error e, state, out)
  | .ok () =>
      let out := { out with summary := packetSummary packet }
      match acceptPacket state packet with
      | (state', none) => (.ok (), state', out)
      | (state', some record) =>
          (.ok (), state', { out with groupRecord := record, groupReady := true })

/-- `pt21_ladder_finish`: the partial trailing group, if any, and the campaign root. -/
def ladderFinish (state : LadderState) : LadderState × Option Bytes × Bytes :=
  let (closed, record) :=
    if state.groupBlocks > 0 then
      let (emitted, record) := emitGroup state
      (emitted, some record)
    else (state, none)
  (closed, record, sha256Finalize closed.rootState [] closed.rootLength)

end AttestedCompute.Ladder
