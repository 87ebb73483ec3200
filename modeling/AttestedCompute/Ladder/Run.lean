import AttestedCompute.Ladder.Check
import AttestedCompute.Ladder.Summary
import AttestedCompute.Lib.Runs

/-!
# A whole run of the ladder checker

A caller starts the checker, feeds it packets one after another, collects the
summary of every packet and every group record that comes back, and finishes. The
run refines the list specification of `PT21Ladder`: the collected summaries are a
window chain and the collected records describe the consecutive runs of that chain.

The invariant is about the open group only. Everything the rolling state knows of
it is a function of the packets folded since the last record: `GroupOpen` says
which function, one field at a time. A step either extends the open group or
closes it, and closing it writes a record that describes exactly those packets.

The state is 64-bit and the specification is not, so the refinement needs the
cursors not to wrap: `InRange` is the exact condition on the caller's inputs.
-/

namespace AttestedCompute.Ladder

open PT21Ladder (WindowChainValid Describes slotSum runGroupsTo)

/-! ## Running the checker -/

/-- The records a step hands back. -/
def StepOut.records (out : StepOut) : List Bytes := if out.groupReady then [out.groupRecord] else []

/-- What a caller has after feeding packets that were all accepted. -/
structure Fed where
  state : LadderState
  summaries : List WindowSummary
  records : List Bytes

/-- Feed packets until one is refused. -/
def feed : LadderState → StepOut → List Bytes → Except Fault Fed
  | state, _, [] => .ok { state := state, summaries := [], records := [] }
  | state, out, packet :: rest =>
      match ladderStep state packet out with
      | (.error e, _, _) => .error e
      | (.ok (), state', out') => do
          let fed ← feed state' out' rest
          pure { fed with summaries := out'.summary :: fed.summaries
                          records := out'.records ++ fed.records }

/-- What a whole run produced. -/
structure RunResult where
  summaries : List WindowSummary
  records : List Bytes
  root : Bytes

/-- Start, feed, finish. -/
def ladderRun (firstBlock firstCount : UInt64) (blocksPerGroup : UInt32) (commitPackets : Bool)
    (out : StepOut) (packets : List Bytes) : Except Fault RunResult := do
  let fed ← feed (ladderStart firstBlock firstCount blocksPerGroup commitPackets) out packets
  let (_, record, root) := ladderFinish fed.state
  pure { summaries := fed.summaries, records := fed.records ++ record.toList, root := root }

/-! ## Reading what a run produced -/

/-- The four naturals of a summary. -/
def WindowSummary.window (summary : WindowSummary) : PT21Ladder.WindowSummary :=
  { block := summary.block.toNat, lowerCount := summary.lowerCount.toNat
    slots := summary.slots.toNat, upperCount := summary.upperCount.toNat }

def windows (packets : List Bytes) : List PT21Ladder.WindowSummary :=
  packets.map fun packet => (packetSummary packet).window

/-- The big-endian number of a record field. -/
def recordField (record : Bytes) (offset width : Nat) : Nat :=
  Bytes.beValue ((record.drop offset).take width)

/-- The level-2 summary an emitted record spells. -/
def readGroup (record : Bytes) : PT21Ladder.GroupSummary :=
  { firstBlock := recordField record 0 8
    blockCount := recordField record 8 8
    lowerCount := recordField record 16 8
    slots := recordField record 24 8
    upperCount := recordField record 32 8
    digest := recordField record 40 32 }

/-- The commitment of a packet: its SHA-256, or zeros when commitment is off. -/
def packetCommitment (commitPackets : Bool) (packet : Bytes) : Bytes :=
  if commitPackets then Sha256.digest packet else List.replicate 32 0

/-- The concatenated level-1 records of a run. -/
def runBytes (commitPackets : Bool) (packets : List Bytes) : Bytes :=
  packets.flatMap fun packet =>
    windowRecord (packetSummary packet) (packetCommitment commitPackets packet)

/-- The one-shot SHA-256 of a run, as a number. -/
def runDigest (commitPackets : Bool) (packets : List Bytes) : Nat :=
  Bytes.beValue (Sha256.digest (runBytes commitPackets packets))

/-- `record` describes the run `packets`. -/
def RecordDescribes (commitPackets : Bool) (packets : List Bytes) (record : Bytes) : Prop :=
  Describes (windows packets) (runDigest commitPackets packets) (readGroup record)

/-- The group specification of a finished run: the summaries are those of the packets, they form
a chain from the declared start, and the records describe the runs it is cut into. -/
structure Partitions (firstBlock firstCount blocksPerGroup : Nat) (commitPackets : Bool)
    (packets : List Bytes) (result : RunResult) : Prop where
  summaries : result.summaries = packets.map packetSummary
  chain : WindowChainValid firstBlock firstCount (result.summaries.map WindowSummary.window)
  runs : ∃ runs : List (List Bytes), runs.flatten = packets ∧ Runs.IsRuns blocksPerGroup runs
    ∧ List.Forall₂ (RecordDescribes commitPackets) runs result.records
  groups : runGroupsTo firstBlock firstCount (firstBlock + packets.length)
    (firstCount + slotSum (result.summaries.map WindowSummary.window))
    (result.records.map readGroup) = true

/-- The cursors of a run of `n` packets stay inside 64 bits and its group size is a size. -/
def InRange (firstBlock firstCount : UInt64) (blocksPerGroup : UInt32) (n : Nat) : Prop :=
  n = 0 ∨ (firstCount ≤ countLimit ∧ 0 < blocksPerGroup ∧ firstBlock.toNat + n ≤ 2 ^ 64)

/-! ## What acceptance says -/

/-- What the run needs of an accepted packet. -/
structure Accepted (state : LadderState) (packet : Bytes) : Prop where
  length : packet.length = packetBytes
  block : (packetSummary packet).block = state.nextBlock
  lowerCount : (packetSummary packet).lowerCount = state.runningCount
  closure : (packetSummary packet).lowerCount + (packetSummary packet).slots
    = (packetSummary packet).upperCount
  upperCount : (packetSummary packet).upperCount ≤ countLimit
  slots : (packetSummary packet).slots.toNat < 2 ^ 32

theorem checkHeader_ok {state : LadderState} {packet : Bytes}
    (h : checkHeader state packet = .ok ()) :
    packet.length = packetBytes ∧ (readHeader packet).block = state.nextBlock
      ∧ (readHeader packet).lowerCount = state.runningCount
      ∧ (readHeader packet).lowerCount + (readHeader packet).slots
        = (readHeader packet).upperCount := by
  simp only [checkHeader, Fallible.bind_ok, rejectIf_ok, decide_eq_false_iff_not, not_not] at h
  obtain ⟨_, hlen, _, -, _, hblock, _, hlow, _, -, _, hclosed, -⟩ := h
  exact ⟨hlen, hblock, hlow, hclosed⟩

theorem checkTargets_ok {header : PacketHeader} {lower upper : Enclosure}
    (h : checkTargets header lower upper = .ok ()) : header.upperCount ≤ countLimit := by
  rw [checkTargets, Fallible.bind_ok] at h
  obtain ⟨_, hlimit, -⟩ := h
  rw [rejectIf_ok, decide_eq_false_iff_not] at hlimit
  exact UInt64.not_lt.mp hlimit

theorem checkPacket_ok {state : LadderState} {packet : Bytes}
    (h : checkPacket state packet = .ok ()) : Accepted state packet := by
  simp only [checkPacket, Fallible.bind_ok] at h
  obtain ⟨_, hheader, _, -, _, -, _, -, _, -, _, -, hturing⟩ := h
  obtain ⟨hlen, hblock, hlow, hclosed⟩ := checkHeader_ok hheader
  simp only [checkTuring, Fallible.bind_ok] at hturing
  obtain ⟨_, -, weights, -, quotients, -, htargets⟩ := hturing
  refine ⟨hlen, hblock, hlow, hclosed, checkTargets_ok htargets, ?_⟩
  show (readBe32 packet 32).toUInt64.toNat < 2 ^ 32
  rw [UInt32.toNat_toUInt64]
  exact (readBe32 packet 32).toNat_lt

/-- The outcome of an accepted step, out-parameters included. -/
theorem ladderStep_ok {state state' : LadderState} {packet : Bytes} {out out' : StepOut}
    (h : ladderStep state packet out = (.ok (), state', out')) :
    checkPacket state packet = .ok () ∧ state' = (acceptPacket state packet).1
      ∧ out'.summary = packetSummary packet
      ∧ out'.records = (acceptPacket state packet).2.toList := by
  unfold ladderStep at h
  split at h
  · exact absurd (congrArg Prod.fst h) (by simp)
  · rename_i hcheck
    refine ⟨hcheck, ?_⟩
    split at h
    · rename_i haccept
      rw [Prod.mk.injEq, Prod.mk.injEq] at h
      obtain ⟨-, rfl, rfl⟩ := h
      rw [haccept]
      exact ⟨rfl, rfl, rfl⟩
    · rename_i haccept
      rw [Prod.mk.injEq, Prod.mk.injEq] at h
      obtain ⟨-, rfl, rfl⟩ := h
      rw [haccept]
      exact ⟨rfl, rfl, rfl⟩

/-- Feeding a list is accepting its head and feeding the rest. -/
theorem feed_cons {state : LadderState} {out : StepOut} {packet : Bytes} {rest : List Bytes}
    {fed : Fed} (h : feed state out (packet :: rest) = .ok fed) :
    Accepted state packet ∧ ∃ out' fed', feed (acceptPacket state packet).1 out' rest = .ok fed'
      ∧ fed.state = fed'.state ∧ fed.summaries = packetSummary packet :: fed'.summaries
      ∧ fed.records = (acceptPacket state packet).2.toList ++ fed'.records := by
  rw [feed] at h
  split at h
  · exact absurd h (by simp)
  · rename_i state' out' hstep
    obtain ⟨hcheck, hstate, hsummary, hrecords⟩ := ladderStep_ok hstep
    rw [Fallible.bind_ok] at h
    obtain ⟨fed', hfed, hresult⟩ := h
    rw [Fallible.pure_ok] at hresult
    rw [hstate] at hfed
    refine ⟨checkPacket_ok hcheck, out', fed', hfed, ?_⟩
    rw [← hresult, hsummary, hrecords]
    exact ⟨rfl, rfl, rfl⟩

/-! ## The open group -/

/-- Everything the rolling state records of the group opened at `(block, count)` into which
`current` has been folded. -/
structure GroupOpen (commitPackets : Bool) (blocksPerGroup : UInt32) (block count : Nat)
    (current : List Bytes) (state : LadderState) : Prop where
  commits : state.commitPackets = commitPackets
  groupSize : state.blocksPerGroup = blocksPerGroup
  chain : WindowChainValid block count (windows current)
  groupFirstBlock : state.groupFirstBlock = UInt64.ofNat block
  groupFirstCount : state.groupFirstCount.toNat = count
  groupBlocks : state.groupBlocks.toNat = current.length
  groupSlots : state.groupSlots.toNat = slotSum (windows current)
  nextBlock : state.nextBlock = UInt64.ofNat (block + current.length)
  runningCount : state.runningCount.toNat = count + slotSum (windows current)
  runLength : (runBytes commitPackets current).length = current.length * 64
  digestState : state.groupDigestState
    = sha256Absorb Sha256.init (runBytes commitPackets current) current.length
  digestLength : state.groupDigestLength.toNat = current.length * 64

theorem groupOpen_start (firstBlock firstCount : UInt64) (blocksPerGroup : UInt32)
    (commitPackets : Bool) :
    GroupOpen commitPackets blocksPerGroup firstBlock.toNat firstCount.toNat []
      (ladderStart firstBlock firstCount blocksPerGroup commitPackets) where
  commits := rfl
  groupSize := rfl
  chain := trivial
  groupFirstBlock := by simp [ladderStart]
  groupFirstCount := rfl
  groupBlocks := rfl
  groupSlots := rfl
  nextBlock := by simp [ladderStart]
  runningCount := rfl
  runLength := rfl
  digestState := rfl
  digestLength := rfl

theorem windows_snoc (current : List Bytes) (packet : Bytes) :
    windows (current ++ [packet]) = windows current ++ [(packetSummary packet).window] :=
  List.map_append

theorem slotSum_windows_snoc (current : List Bytes) (packet : Bytes) :
    slotSum (windows (current ++ [packet]))
      = slotSum (windows current) + (packetSummary packet).slots.toNat := by
  rw [windows_snoc, PT21Ladder.slotSum_append]
  rfl

theorem runBytes_snoc (commitPackets : Bool) (current : List Bytes) (packet : Bytes) :
    runBytes commitPackets (current ++ [packet]) = runBytes commitPackets current
      ++ windowRecord (packetSummary packet) (packetCommitment commitPackets packet) := by
  simp [runBytes]

/-- The streamed packet commitment is the one-shot SHA-256 of the packet. -/
theorem packetDigest_eq {packet : Bytes} (h : packet.length = packetBytes) (commitPackets : Bool) :
    packetDigest commitPackets packet = packetCommitment commitPackets packet := by
  have hwhole : (packet.take (packetBytes / 64 * 64)).length = packetBytes / 64 * 64 := by
    rw [List.length_take, h]; decide
  have htail : (packet.drop (packetBytes / 64 * 64)).length = packetBytes % 64 := by
    rw [List.length_drop, h]; decide
  have hstream : sha256Absorb Sha256.init packet (packetBytes / 64)
      = sha256Absorb Sha256.init (packet.take (packetBytes / 64 * 64)) (packetBytes / 64) := by
    have hsplit : sha256Absorb Sha256.init (packet.take (packetBytes / 64 * 64)
        ++ packet.drop (packetBytes / 64 * 64)) (packetBytes / 64) = _ :=
      IteratedHash.absorb_append_left hwhole Sha256.init _
    rw [List.take_append_drop] at hsplit
    exact hsplit
  have hfinal : sha256Finalize _ (packet.drop (packetBytes / 64 * 64)) packetBytes.toUInt64 = _ :=
    sha256Finalize_eq hwhole (by rw [htail]; decide) (by rw [htail]; decide) (by decide)
  rw [List.take_append_drop, ← hstream] at hfinal
  rw [packetDigest, packetCommitment, hfinal]

theorem length_packetCommitment (commitPackets : Bool) (packet : Bytes) :
    (packetCommitment commitPackets packet).length = 32 := by
  unfold packetCommitment
  split <;> simp

theorem length_windowRecord (summary : WindowSummary) {digest : Bytes} (h : digest.length = 32) :
    (windowRecord summary digest).length = 64 := by
  simp [windowRecord, h]

theorem toNat_add_one {x : UInt64} {n : Nat} (hx : x.toNat = n) (hn : n + 1 < 2 ^ 64) :
    (x + 1).toNat = n + 1 := by
  rw [UInt64.toNat_add, hx, UInt64.toNat_one, Nat.mod_eq_of_lt hn]

theorem toNat_add_of_lt {x y : UInt64} (h : x.toNat + y.toNat < 2 ^ 64) :
    (x + y).toNat = x.toNat + y.toNat := by
  rw [UInt64.toNat_add, Nat.mod_eq_of_lt h]

/-- **An accepted packet extends the open group.** -/
theorem groupOpen_advance {commitPackets : Bool} {blocksPerGroup : UInt32} {block count : Nat}
    {current : List Bytes} {state : LadderState} {packet : Bytes}
    (hopen : GroupOpen commitPackets blocksPerGroup block count current state)
    (haccepted : Accepted state packet) (hblock : block + current.length < 2 ^ 64)
    (hcount : count + slotSum (windows current) ≤ 2 ^ 53) (hsize : current.length < 2 ^ 32) :
    GroupOpen commitPackets blocksPerGroup block count (current ++ [packet]) (advance state packet)
      ∧ count + slotSum (windows (current ++ [packet])) ≤ 2 ^ 53 := by
  have hlow : (packetSummary packet).lowerCount.toNat = count + slotSum (windows current) := by
    rw [haccepted.lowerCount, hopen.runningCount]
  have hslots := haccepted.slots
  -- the sum does not wrap: the count is at most `2 ^ 53` and the slots fit in 32 bits
  have hupper : (packetSummary packet).upperCount.toNat
      = count + slotSum (windows (current ++ [packet])) := by
    rw [← haccepted.closure, toNat_add_of_lt (by omega), hlow, slotSum_windows_snoc, Nat.add_assoc]
  have hlimit : (packetSummary packet).upperCount.toNat ≤ 2 ^ 53 :=
    UInt64.le_iff_toNat_le.mp haccepted.upperCount
  have hblocknat : (packetSummary packet).block.toNat = block + current.length := by
    rw [haccepted.block, hopen.nextBlock, UInt64.toNat_ofNat_of_lt' hblock]
  have hdigest : packetDigest state.commitPackets packet = packetCommitment commitPackets packet := by
    rw [hopen.commits, packetDigest_eq haccepted.length]
  have hrecord := length_windowRecord (packetSummary packet)
    (length_packetCommitment commitPackets packet)
  refine ⟨?_, by rw [← hupper]; exact hlimit⟩
  constructor
  case commits => rw [advance_commitPackets, hopen.commits]
  case groupSize => rw [advance_blocksPerGroup, hopen.groupSize]
  case chain =>
    rw [windows_snoc, PT21Ladder.windowChainValid_append]
    refine ⟨hopen.chain, ?_, hlow, ?_, trivial⟩
    · rw [windows, List.length_map]; exact hblocknat
    · show (packetSummary packet).lowerCount.toNat + (packetSummary packet).slots.toNat = _
      rw [hlow, Nat.add_assoc, ← slotSum_windows_snoc, ← hupper]
      rfl
  case groupFirstBlock => rw [advance_groupFirstBlock, hopen.groupFirstBlock]
  case groupFirstCount => rw [advance_groupFirstCount, hopen.groupFirstCount]
  case groupBlocks =>
    rw [advance_groupBlocks, List.length_append, List.length_singleton]
    exact toNat_add_one hopen.groupBlocks (by omega)
  case groupSlots =>
    rw [advance_groupSlots, toNat_add_of_lt (by rw [hopen.groupSlots]; omega), hopen.groupSlots,
      slotSum_windows_snoc]
  case nextBlock =>
    rw [advance_nextBlock, haccepted.block, hopen.nextBlock, List.length_append,
      List.length_singleton, ← Nat.add_assoc, UInt64.ofNat_add _ 1, UInt64.ofNat_one]
  case runningCount => rw [advance_runningCount, hupper]
  case runLength =>
    rw [runBytes_snoc, List.length_append, hopen.runLength, hrecord, List.length_append,
      List.length_singleton, Nat.succ_mul]
  case digestState =>
    rw [advance_groupDigestState, hopen.digestState, hdigest, sha256Absorb_snoc hopen.runLength,
      runBytes_snoc, List.length_append, List.length_singleton]
  case digestLength =>
    have h64 : (64 : UInt64).toNat = 64 := rfl
    rw [advance_groupDigestLength, toNat_add_of_lt (by rw [hopen.digestLength, h64]; omega),
      hopen.digestLength, h64, List.length_append, List.length_singleton, Nat.succ_mul]

/-! ## The emitted record -/

/-- Reading past a leading word. -/
theorem recordField_skip (value : UInt64) (rest : Bytes) (offset width : Nat) :
    recordField (writeBe64 value ++ rest) (offset + 8) width = recordField rest offset width := by
  rw [recordField, recordField, List.drop_append, length_writeBe64, Nat.add_sub_cancel,
    List.drop_eq_nil_of_le (by rw [length_writeBe64]; omega), List.nil_append]

theorem recordField_head {field : Bytes} {width : Nat} (h : field.length = width) (rest : Bytes) :
    recordField (field ++ rest) 0 width = Bytes.beValue field := by
  rw [recordField, List.drop_zero, List.take_left' h]

theorem recordField_word (value : UInt64) (rest : Bytes) :
    recordField (writeBe64 value ++ rest) 0 8 = value.toNat := by
  rw [recordField_head (length_writeBe64 value), beValue_writeBe64]

/-- The fields of a written record, read back. -/
theorem readGroup_groupRecord (state : LadderState) :
    readGroup (groupRecord state)
      = { firstBlock := state.groupFirstBlock.toNat
          blockCount := state.groupBlocks.toNat
          lowerCount := state.groupFirstCount.toNat
          slots := state.groupSlots.toNat
          upperCount := state.runningCount.toNat
          digest := Bytes.beValue
            (sha256Finalize state.groupDigestState [] state.groupDigestLength) } := by
  have hdigest : (sha256Finalize state.groupDigestState [] state.groupDigestLength).length = 32 :=
    Sha256.length_toBytes _
  have hrecord := recordField_head hdigest (writeBe64 state.groupsEmitted ++ writeBe64 0)
  simp only [readGroup, groupRecord, List.append_assoc]
  rw [recordField_word, recordField_skip _ _ 0, recordField_word]
  rw [recordField_skip _ _ 8, recordField_skip _ _ 0, recordField_word]
  rw [recordField_skip _ _ 16, recordField_skip _ _ 8, recordField_skip _ _ 0, recordField_word]
  rw [recordField_skip _ _ 24, recordField_skip _ _ 16, recordField_skip _ _ 8,
    recordField_skip _ _ 0, recordField_word]
  rw [recordField_skip _ _ 32, recordField_skip _ _ 24, recordField_skip _ _ 16,
    recordField_skip _ _ 8, recordField_skip _ _ 0, hrecord]

/-- **A closed group is described by its record.** -/
theorem groupOpen_emit {commitPackets : Bool} {blocksPerGroup : UInt32} {block count : Nat}
    {current : List Bytes} {state : LadderState}
    (hopen : GroupOpen commitPackets blocksPerGroup block count current state)
    (hne : current ≠ []) (hblock : block < 2 ^ 64) (hsize : current.length ≤ 2 ^ 32) :
    RecordDescribes commitPackets current (emitGroup state).2
      ∧ GroupOpen commitPackets blocksPerGroup (block + current.length)
          (count + slotSum (windows current)) [] (emitGroup state).1 := by
  have hdigest : sha256Finalize state.groupDigestState [] state.groupDigestLength
      = Sha256.digest (runBytes commitPackets current) := by
    have hfinal : sha256Finalize _ [] state.groupDigestLength = _ :=
      sha256Finalize_eq hopen.runLength (by decide) hopen.digestLength
        (by rw [hopen.digestLength]; omega)
    rw [List.append_nil, ← hopen.digestState] at hfinal
    exact hfinal
  have hwne : windows current ≠ [] := fun h => hne (List.map_eq_nil_iff.mp h)
  obtain ⟨first, rest, hcons⟩ := List.exists_cons_of_ne_nil hwne
  have hchain := hopen.chain
  refine ⟨?_, ?_⟩
  · rw [RecordDescribes, emitGroup_record, readGroup_groupRecord]
    constructor
    case firstBlock =>
      rw [hcons] at hchain ⊢
      rw [hopen.groupFirstBlock, UInt64.toNat_ofNat_of_lt' hblock]
      exact congrArg some hchain.1
    case blockCount => rw [windows, List.length_map, hopen.groupBlocks]
    case lowerCount =>
      rw [hcons] at hchain ⊢
      rw [hopen.groupFirstCount]
      exact congrArg some hchain.2.1
    case slots => rw [hopen.groupSlots]
    case upperCount =>
      rw [PT21Ladder.windowChainValid_last hchain hwne, hopen.runningCount]
    case digest => rw [hdigest, runDigest]
  · constructor
    case commits => rw [emitGroup_commitPackets, hopen.commits]
    case groupSize => rw [emitGroup_blocksPerGroup, hopen.groupSize]
    case chain => trivial
    case groupFirstBlock => rw [emitGroup_groupFirstBlock, hopen.nextBlock]
    case groupFirstCount => rw [emitGroup_groupFirstCount, hopen.runningCount]
    case groupBlocks => rw [emitGroup_groupBlocks]; rfl
    case groupSlots => rw [emitGroup_groupSlots]; rfl
    case nextBlock => rw [emitGroup_nextBlock, hopen.nextBlock, List.length_nil, Nat.add_zero]
    case runningCount => rw [emitGroup_runningCount, hopen.runningCount]; rfl
    case runLength => rfl
    case digestState => rw [emitGroup_groupDigestState]; rfl
    case digestLength => rw [emitGroup_groupDigestLength]; rfl

end AttestedCompute.Ladder
