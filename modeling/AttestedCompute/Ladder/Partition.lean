import AttestedCompute.Ladder.Run
import AttestedCompute.Ladder.Calls

/-!
# The group records of a run partition its summaries

`feed_groups` carries the open group through a whole feed, collecting the groups
that closed on the way; `finish_record` closes what is left. Together they are the
refinement: in range, every run satisfies the group specification.

The range condition is not slack. A run that leaves it is accepted all the same,
because the cursors are compared after they have wrapped, and then no list of
natural-number summaries can be a chain from the declared start.
-/

namespace AttestedCompute.Ladder

open PT21Ladder (WindowChainValid Describes slotSum runGroupsTo)

/-- A group is full exactly when it holds as many packets as the caller asked for. -/
theorem groupBlocks_full {commitPackets : Bool} {blocksPerGroup : UInt32} {block count : Nat}
    {current : List Bytes} {state : LadderState}
    (hopen : GroupOpen commitPackets blocksPerGroup block count current state) :
    state.groupBlocks = state.blocksPerGroup.toUInt64 ↔ current.length = blocksPerGroup.toNat := by
  rw [← UInt64.toNat_inj, hopen.groupBlocks, UInt32.toNat_toUInt64, hopen.groupSize]

/-- What one accepted packet does to the open group. -/
theorem accept_cases {commitPackets : Bool} {blocksPerGroup : UInt32} {block count : Nat}
    {current : List Bytes} {state : LadderState} {packet : Bytes}
    (hopen : GroupOpen commitPackets blocksPerGroup block count current state)
    (haccepted : Accepted state packet) (hblock : block + current.length < 2 ^ 64)
    (hcount : count + slotSum (windows current) ≤ 2 ^ 53)
    (hsize : current.length < blocksPerGroup.toNat) :
    count + slotSum (windows (current ++ [packet])) ≤ 2 ^ 53
      ∧ ((current.length + 1 < blocksPerGroup.toNat ∧ (acceptPacket state packet).2 = none
          ∧ GroupOpen commitPackets blocksPerGroup block count (current ++ [packet])
            (acceptPacket state packet).1)
        ∨ (current.length + 1 = blocksPerGroup.toNat
          ∧ (∃ record, (acceptPacket state packet).2 = some record
            ∧ RecordDescribes commitPackets (current ++ [packet]) record)
          ∧ WindowChainValid block count (windows (current ++ [packet]))
          ∧ GroupOpen commitPackets blocksPerGroup (block + (current.length + 1))
              (count + slotSum (windows (current ++ [packet]))) []
              (acceptPacket state packet).1)) := by
  have hgroup := blocksPerGroup.toNat_lt
  obtain ⟨hadv, hcount'⟩ := groupOpen_advance hopen haccepted hblock hcount (by omega)
  have hlen : (current ++ [packet]).length = current.length + 1 := by simp
  have hfull := groupBlocks_full hadv
  rw [hlen] at hfull
  refine ⟨hcount', ?_⟩
  by_cases h : current.length + 1 = blocksPerGroup.toNat
  · right
    obtain ⟨hdesc, hnext⟩ := groupOpen_emit hadv (by simp) (by omega) (by rw [hlen]; omega)
    rw [hlen] at hnext
    have haccept : acceptPacket state packet
        = ((emitGroup (advance state packet)).1, some (emitGroup (advance state packet)).2) := by
      rw [acceptPacket, if_pos (hfull.mpr h)]
    rw [haccept]
    exact ⟨h, ⟨_, rfl, hdesc⟩, hadv.chain, hnext⟩
  · left
    have haccept : acceptPacket state packet = (advance state packet, none) := by
      rw [acceptPacket, if_neg (fun he => h (hfull.mp he))]
    rw [haccept]
    exact ⟨by omega, rfl, hadv⟩

/-- **Feeding.** The packets folded before and during the feed are cut into full groups, each
described by the record it produced, and one open group. -/
theorem feed_groups {commitPackets : Bool} {blocksPerGroup : UInt32} {block count : Nat}
    {current packets : List Bytes} {state : LadderState} {out : StepOut} {fed : Fed}
    (hopen : GroupOpen commitPackets blocksPerGroup block count current state)
    (hsize : current.length < blocksPerGroup.toNat)
    (hcount : count + slotSum (windows current) ≤ 2 ^ 53)
    (hblock : block + current.length + packets.length ≤ 2 ^ 64)
    (hfeed : feed state out packets = .ok fed) :
    fed.summaries = packets.map packetSummary
      ∧ ∃ (closed : List (List Bytes)) (rest : List Bytes),
        closed.flatten ++ rest = current ++ packets
          ∧ (∀ run ∈ closed, run.length = blocksPerGroup.toNat)
          ∧ rest.length < blocksPerGroup.toNat
          ∧ List.Forall₂ (RecordDescribes commitPackets) closed fed.records
          ∧ WindowChainValid block count (windows closed.flatten)
          ∧ GroupOpen commitPackets blocksPerGroup (block + closed.flatten.length)
              (count + slotSum (windows closed.flatten)) rest fed.state := by
  induction packets generalizing block count current state out fed with
  | nil =>
      rw [feed] at hfeed
      injection hfeed with hfeed
      rw [← hfeed]
      exact ⟨rfl, [], current, by simp, by simp, hsize, .nil, trivial, hopen⟩
  | cons packet packets ih =>
      obtain ⟨haccepted, out', fed', hfed', hstate, hsummaries, hrecords⟩ := feed_cons hfeed
      rw [List.length_cons] at hblock
      obtain ⟨hcount', hcase⟩ := accept_cases hopen haccepted (by omega) hcount hsize
      rcases hcase with ⟨hroom, hnone, hopen'⟩ | ⟨hfull, ⟨record, hsome, hdesc⟩, hchain, hopen'⟩
      · -- the open group takes the packet
        obtain ⟨hsum, closed, rest, hflat, hclosed, hrest, hdescs, hchain, hfinal⟩ :=
          ih hopen' (by simpa using hroom) hcount' (by simp; omega) hfed'
        rw [hnone] at hrecords
        refine ⟨by rw [hsummaries, hsum]; rfl, closed, rest, ?_, hclosed, hrest, ?_, hchain, ?_⟩
        · rw [hflat, List.append_assoc]; rfl
        · rw [hrecords]; exact hdescs
        · rw [hstate]; exact hfinal
      · -- the packet completes the group, and the next one starts empty
        obtain ⟨hsum, closed, rest, hflat, hclosed, hrest, hdescs, hchain', hfinal⟩ :=
          ih hopen' (by simp; omega) (by simpa [windows] using hcount') (by simp; omega) hfed'
        rw [hsome] at hrecords
        have hlen : (current ++ [packet]).length = current.length + 1 := by simp
        have hwindows : windows ((current ++ [packet]) :: closed).flatten
            = windows (current ++ [packet]) ++ windows closed.flatten := by
          rw [List.flatten_cons, windows, windows, windows, List.map_append]
        refine ⟨by rw [hsummaries, hsum]; rfl, (current ++ [packet]) :: closed, rest, ?_, ?_, hrest,
          ?_, ?_, ?_⟩
        · rw [List.flatten_cons, List.append_assoc, hflat, List.append_assoc]; rfl
        · intro run hrun
          rcases List.mem_cons.mp hrun with rfl | hrun
          · rw [hlen, hfull]
          · exact hclosed run hrun
        · rw [hrecords]; exact .cons hdesc hdescs
        · rw [hwindows, PT21Ladder.windowChainValid_append, windows, List.length_map, hlen]
          exact ⟨hchain, hchain'⟩
        · rw [hstate, hwindows, PT21Ladder.slotSum_append, List.flatten_cons, List.length_append,
            hlen, ← Nat.add_assoc block, ← Nat.add_assoc count]
          exact hfinal

/-- **Finishing** describes the open group by one more record, unless it is empty. -/
theorem finish_record {commitPackets : Bool} {blocksPerGroup : UInt32} {block count : Nat}
    {current : List Bytes} {state : LadderState}
    (hopen : GroupOpen commitPackets blocksPerGroup block count current state)
    (hblock : block + current.length ≤ 2 ^ 64) (hsize : current.length ≤ 2 ^ 32) :
    List.Forall₂ (RecordDescribes commitPackets) (Runs.leftover current)
      (ladderFinish state).2.1.toList := by
  by_cases h : current = []
  · have hblocks : ¬ state.groupBlocks > 0 := by
      rw [gt_iff_lt, UInt64.lt_iff_toNat_lt, hopen.groupBlocks, h]
      simp
    rw [h, Runs.leftover_nil, ladderFinish, if_neg hblocks]
    exact .nil
  · have hpos := List.length_pos_of_ne_nil h
    have hblocks : state.groupBlocks > 0 := by
      rw [gt_iff_lt, UInt64.lt_iff_toNat_lt, hopen.groupBlocks]
      exact hpos
    obtain ⟨hdesc, -⟩ := groupOpen_emit hopen h (by omega) hsize
    rw [Runs.leftover_of_ne_nil h, ladderFinish, if_pos hblocks]
    exact .cons hdesc .nil

/-- A run is a feed and a finish. -/
theorem ladderRun_ok {firstBlock firstCount : UInt64} {blocksPerGroup : UInt32}
    {commitPackets : Bool} {out : StepOut} {packets : List Bytes} {result : RunResult}
    (h : ladderRun firstBlock firstCount blocksPerGroup commitPackets out packets = .ok result) :
    ∃ fed, feed (ladderStart firstBlock firstCount blocksPerGroup commitPackets) out packets
        = .ok fed
      ∧ result.summaries = fed.summaries
      ∧ result.records = fed.records ++ (ladderFinish fed.state).2.1.toList := by
  rw [ladderRun, Fallible.bind_ok] at h
  obtain ⟨fed, hfed, hresult⟩ := h
  rw [Fallible.pure_ok] at hresult
  exact ⟨fed, hfed, by rw [← hresult], by rw [← hresult]⟩

/-- In range, a run of at least one packet satisfies the group specification. -/
theorem partitions_of_inRange {firstBlock firstCount : UInt64} {blocksPerGroup : UInt32}
    {commitPackets : Bool} {out : StepOut} {packets : List Bytes} {result : RunResult}
    (hrun : ladderRun firstBlock firstCount blocksPerGroup commitPackets out packets = .ok result)
    (hcount : firstCount ≤ countLimit) (hsize : 0 < blocksPerGroup)
    (hblock : firstBlock.toNat + packets.length ≤ 2 ^ 64) :
    Partitions firstBlock.toNat firstCount.toNat blocksPerGroup.toNat commitPackets packets
      result := by
  obtain ⟨fed, hfeed, hsummaries, hrecords⟩ := ladderRun_ok hrun
  have hgroup := blocksPerGroup.toNat_lt
  have hsize' : 0 < blocksPerGroup.toNat := UInt32.lt_iff_toNat_lt.mp hsize
  have hcount' : firstCount.toNat ≤ 2 ^ 53 := UInt64.le_iff_toNat_le.mp hcount
  obtain ⟨hsum, closed, rest, hflat, hclosed, hrest, hdescs, hchain, hfinal⟩ :=
    feed_groups (groupOpen_start firstBlock firstCount blocksPerGroup commitPackets) hsize'
      (by simpa [windows] using hcount') (by simpa using hblock) hfeed
  rw [List.nil_append] at hflat
  have htotal : closed.flatten.length + rest.length = packets.length := by
    rw [← hflat, List.length_append]
  have hlast := finish_record hfinal (by omega) (by omega)
  have hruns : (closed ++ Runs.leftover rest).flatten = packets := by
    rw [List.flatten_append, Runs.flatten_leftover, hflat]
  have hall : List.Forall₂ (RecordDescribes commitPackets) (closed ++ Runs.leftover rest)
      result.records := by
    rw [hrecords]
    exact List.rel_append hdescs hlast
  have hwindows : result.summaries.map WindowSummary.window = windows packets := by
    rw [hsummaries, hsum, List.map_map]
    rfl
  have hcut : windows packets = ((closed ++ Runs.leftover rest).map windows).flatten := by
    rw [← hruns, windows, List.map_flatten]
    rfl
  have hvalid : WindowChainValid firstBlock.toNat firstCount.toNat (windows packets) := by
    rw [← hflat, windows, List.map_append, ← windows, ← windows,
      PT21Ladder.windowChainValid_append, windows, List.length_map]
    exact ⟨hchain, hfinal.chain⟩
  have hisRuns := Runs.isRuns_append_leftover hsize' hclosed hrest
  refine ⟨by rw [hsummaries, hsum], by rw [hwindows]; exact hvalid,
    ⟨_, hruns, hisRuns, hall⟩, ?_⟩
  have hlength : packets.length = ((closed ++ Runs.leftover rest).map windows).flatten.length := by
    rw [← hcut, windows, List.length_map]
  rw [hwindows, hlength, hcut]
  rw [hcut] at hvalid
  refine PT21Ladder.runGroupsTo_of_runs (fun run hmem => ?_) hvalid ?_
  · obtain ⟨packetsOfRun, hmem', rfl⟩ := List.mem_map.mp hmem
    exact fun hnil => hisRuns.nonempty _ hmem' (List.map_eq_nil_iff.mp hnil)
  · rw [List.forall₂_map_left_iff, List.forall₂_map_right_iff]
    refine hall.imp fun run record hdesc => ⟨runDigest commitPackets run, ?_, hdesc⟩
    have hlt := Bytes.beValue_lt (Sha256.digest (runBytes commitPackets run))
    rw [Sha256.length_digest] at hlt
    exact hlt

/-- Out of range, no list of natural-number summaries is a chain from the declared start. -/
theorem inRange_of_partitions {firstBlock firstCount : UInt64} {blocksPerGroup : UInt32}
    {commitPackets : Bool} {out : StepOut} {packets : List Bytes} {result : RunResult}
    (hrun : ladderRun firstBlock firstCount blocksPerGroup commitPackets out packets = .ok result)
    (hpart : Partitions firstBlock.toNat firstCount.toNat blocksPerGroup.toNat commitPackets packets
      result) : InRange firstBlock firstCount blocksPerGroup packets.length := by
  obtain ⟨fed, hfeed, -, -⟩ := ladderRun_ok hrun
  have hchain := hpart.chain
  rw [hpart.summaries, List.map_map] at hchain
  cases packets with
  | nil => exact .inl rfl
  | cons packet rest =>
      obtain ⟨haccepted, -⟩ := feed_cons hfeed
      refine .inr ⟨?_, ?_, ?_⟩
      · -- the first window closes in the naturals under a bounded upper count
        obtain ⟨-, hlow, hclosed, -⟩ := hchain
        have hsum : (packetSummary packet).lowerCount.toNat + (packetSummary packet).slots.toNat
          = (packetSummary packet).upperCount.toNat := hclosed
        have hlow' : (packetSummary packet).lowerCount.toNat = firstCount.toNat := hlow
        have hlimit := UInt64.le_iff_toNat_le.mp haccepted.upperCount
        exact UInt64.le_iff_toNat_le.mpr (by omega)
      · -- some run is nonempty and no longer than the group size
        obtain ⟨runs, hflat, hruns, -⟩ := hpart.runs
        cases runs with
        | nil => exact absurd hflat (by simp)
        | cons run runs =>
            have hpos := List.length_pos_of_ne_nil (hruns.nonempty run (by simp))
            have hshort := hruns.short run (by simp)
            exact UInt32.lt_iff_toNat_lt.mpr (Nat.lt_of_lt_of_le hpos hshort)
      · -- the last block is a 64-bit number
        obtain ⟨last, hlast⟩ : ∃ last, (packet :: rest)[rest.length]? = some last :=
          ⟨_, List.getElem?_eq_getElem (by simp)⟩
        have hwindow : ((packet :: rest).map (WindowSummary.window ∘ packetSummary))[rest.length]?
            = some (packetSummary last).window := by
          rw [List.getElem?_map, hlast]
          rfl
        have hblock := PT21Ladder.windowChainValid_block hchain hwindow
        have hlt := (packetSummary last).block.toNat_lt
        have hnat : (packetSummary last).block.toNat = firstBlock.toNat + rest.length := hblock
        rw [List.length_cons]
        omega

/-! ## A blank packet -/

/-- The header of a packet whose three bitmaps are blank and whose cell `0` is stationary: two
slots, no sign change, and both `S(t)` bounds zero. -/
def quietHeader (block lower upper common commonUpper : UInt64) : Bytes :=
  packetMagic ++ writeBe64 block ++ writeBe64 lower ++ writeBe64 upper
    ++ [0, 0, 0, 2, 0, 0, 0, 1] ++ List.replicate 32 0
    ++ List.replicate 16 0 ++ writeBe64 common ++ writeBe64 common
    ++ List.replicate 16 0 ++ writeBe64 commonUpper ++ writeBe64 commonUpper

def quietPacket (block lower upper common commonUpper : UInt64) : Bytes :=
  quietHeader block lower upper common commonUpper ++ List.replicate 3203 0

theorem at0_blank (n i : Nat) : Bytes.at0 (List.replicate n 0) i = 0 := by
  rw [Bytes.at0, List.getD_eq_getElem?_getD, List.getElem?_replicate]
  split <;> rfl

theorem bitAt_blank (n i : Nat) : bitAt (List.replicate n 0) i = 0 := by
  rw [bitAt, at0_blank]
  simp

theorem transitionCount_blank (n samples : Nat) :
    transitionCount (List.replicate n 0) samples = 0 := by
  have hbyte : ∀ index, byteTransitions (List.replicate n 0) index = 0 := by
    intro index
    rw [byteTransitions, at0_blank, at0_blank]
    decide
  simp only [transitionCount, hbyte, bitAt_blank]
  simp

private theorem foldlM_pure_const {α β ε : Type} (xs : List α) (b : β) :
    xs.foldlM (fun (total : β) (_ : α) => (pure total : Except ε β)) b = .ok b := by
  induction xs with
  | nil => rfl
  | cons x xs ih => exact ih

theorem leftWeight_blank (n samples : Nat) : leftWeight (List.replicate n 0) samples = .ok 0 := by
  simp only [leftWeight, bitAt_blank, ne_eq, not_true_eq_false, if_false, foldlM_pure_const]
  rfl

theorem rightWeight_blank (n samples spanSteps : Nat) :
    rightWeight (List.replicate n 0) samples spanSteps = .ok 0 := by
  simp only [rightWeight, bitAt_blank, ne_eq, not_true_eq_false, if_false, foldlM_pure_const]

section

variable (block lower upper common commonUpper : UInt64)

theorem mainBitmap_quiet :
    mainBitmap (quietPacket block lower upper common commonUpper) = List.replicate 3203 0 :=
  List.drop_left' (by simp [quietHeader, packetMagic, packetHeaderBytes])

theorem leftBitmap_quiet :
    leftBitmap (quietPacket block lower upper common commonUpper) = List.replicate 130 0 := by
  rw [leftBitmap, mainBitmap_quiet, List.drop_replicate]
  rfl

theorem rightBitmap_quiet :
    rightBitmap (quietPacket block lower upper common commonUpper) = List.replicate 65 0 := by
  rw [rightBitmap, leftBitmap_quiet, List.drop_replicate]
  rfl

end

/-- The checks before the arithmetic, on a header with blank bitmaps. -/
theorem checkStructure_quiet {state : LadderState} {packet : Bytes}
    (hmain : mainBitmap packet = List.replicate 3203 0)
    (hleft : leftBitmap packet = List.replicate 130 0)
    (hright : rightBitmap packet = List.replicate 65 0)
    (hheader : checkHeader state packet = .ok ())
    (hslots : (readHeader packet).slots = 2) (hstationary : (readHeader packet).stationaryCount = 1)
    (hcell : readBe32 packet 40 = 0) (hintervals : checkIntervals packet = .ok ()) :
    checkStructure state packet = .ok () := by
  have hcheckSlots : checkSlots packet = .ok () := by
    rw [checkSlots, hmain, transitionCount_blank, hslots, hstationary]
    decide
  have hcellOk : checkStationaryCell packet 0 0 = .ok 0 := by
    rw [checkStationaryCell, hcell, hmain, bitAt_blank, bitAt_blank]
    decide
  have hcheckStationary : checkStationary packet = .ok () := by
    rw [checkStationary, hstationary]
    show (do let _ ← (List.range 1).foldlM (checkStationaryCell packet) 0; pure ()) = _
    rw [List.range_one, List.foldlM_cons, hcellOk]
    rfl
  have hpadding : checkPadding packet = .ok () := by
    rw [checkPadding, hmain, hleft, hright, at0_blank, at0_blank, at0_blank]
    decide
  have hparity : checkParity packet = .ok () := by
    rw [checkParity, hmain, bitAt_blank, bitAt_blank, hslots]
    decide
  have hboundary : checkBoundary packet = .ok () := by
    rw [checkBoundary, hmain, hleft, hright, bitAt_blank, bitAt_blank, bitAt_blank, bitAt_blank]
    decide
  rw [checkStructure, hheader, hcheckSlots, hcheckStationary, hpadding, hparity, hboundary,
    hintervals]
  rfl

theorem flankWeights_blank {packet : Bytes} (hleft : leftBitmap packet = List.replicate 130 0)
    (hright : rightBitmap packet = List.replicate 65 0) : flankWeights packet = .ok (0, 0) := by
  rw [flankWeights, hleft, hright, leftWeight_blank, rightWeight_blank]
  decide

/-- The checks that read only the header and blank bitmaps. -/
theorem checkPacket_quiet {state : LadderState} {packet : Bytes}
    (hmain : mainBitmap packet = List.replicate 3203 0)
    (hleft : leftBitmap packet = List.replicate 130 0)
    (hright : rightBitmap packet = List.replicate 65 0)
    (hheader : checkHeader state packet = .ok ())
    (hslots : (readHeader packet).slots = 2) (hstationary : (readHeader packet).stationaryCount = 1)
    (hcell : readBe32 packet 40 = 0)
    (hintervals : checkIntervals packet = .ok ())
    (hturing : (do
      let (lower, upper) ← turingQuotients packet 0 0
      checkTargets (readHeader packet) lower upper) = .ok ()) :
    checkPacket state packet = .ok () := by
  rw [checkPacket_eq, checkStructure_quiet hmain hleft hright hheader hslots hstationary hcell
    hintervals, checkArithmetic, flankWeights_blank hleft hright]
  exact hturing

/-- A run of one accepted packet. -/
theorem ladderRun_single {firstBlock firstCount : UInt64} {blocksPerGroup : UInt32}
    {commitPackets : Bool} {packet : Bytes} (out : StepOut)
    (h : checkPacket (ladderStart firstBlock firstCount blocksPerGroup commitPackets) packet
      = .ok ()) :
    ∃ result, ladderRun firstBlock firstCount blocksPerGroup commitPackets out [packet]
      = .ok result := by
  have hstep : ∃ state' out',
      ladderStep (ladderStart firstBlock firstCount blocksPerGroup commitPackets) packet out
        = (.ok (), state', out') := by
    rw [ladderStep, h]
    cases acceptPacket (ladderStart firstBlock firstCount blocksPerGroup commitPackets) packet with
    | mk state' record =>
        cases record with
        | none => exact ⟨_, _, rfl⟩
        | some record => exact ⟨_, _, rfl⟩
  obtain ⟨state', out', hstep⟩ := hstep
  rw [ladderRun, feed, hstep]
  exact ⟨_, rfl⟩

/-! ## The refinement -/

/--
**Group partition.** A run of the ladder checker in which every packet is accepted
satisfies the group specification exactly when its cursors stay in range.
-/
theorem ladderRun_partitions_iff {firstBlock firstCount : UInt64} {blocksPerGroup : UInt32}
    {commitPackets : Bool} {out : StepOut} {packets : List Bytes} {result : RunResult}
    (hrun : ladderRun firstBlock firstCount blocksPerGroup commitPackets out packets
      = .ok result) :
    Partitions firstBlock.toNat firstCount.toNat blocksPerGroup.toNat commitPackets packets result
      ↔ InRange firstBlock firstCount blocksPerGroup packets.length := by
  refine ⟨inRange_of_partitions hrun, ?_⟩
  rintro (hempty | ⟨hcount, hsize, hblock⟩)
  · obtain rfl := List.length_eq_zero_iff.mp hempty
    obtain ⟨fed, hfeed, hsummaries, hrecords⟩ := ladderRun_ok hrun
    injection hfeed with hfeed
    have hnone : (ladderFinish fed.state).2.1 = none := by rw [← hfeed]; rfl
    rw [hnone, ← hfeed] at hrecords
    rw [← hfeed] at hsummaries
    refine ⟨hsummaries, by rw [hsummaries]; trivial, ⟨[], rfl, Runs.isRuns_nil _, ?_⟩, ?_⟩
    · rw [hrecords]; exact .nil
    · rw [hrecords, hsummaries]
      simp [runGroupsTo]
  · exact partitions_of_inRange hrun hcount hsize hblock

/-- The out-parameters of a caller that has not called yet. -/
def blankOut : StepOut :=
  { summary := { block := 0, lowerCount := 0, slots := 0, upperCount := 0 }
    groupRecord := [], groupReady := false }

theorem checkPacket_firstPacket :
    checkPacket (ladderStart 0 1 1 false) (quietPacket 0 1 3 0 43008) = .ok () :=
  checkPacket_quiet (mainBitmap_quiet ..) (leftBitmap_quiet ..) (rightBitmap_quiet ..)
    (by decide +kernel) (by decide +kernel) (by decide +kernel) (by decide +kernel)
    (by decide +kernel) (by decide +kernel)

/-- A run that counts from one satisfies the specification. -/
theorem ladderRun_firstPacket_partitions :
    ∃ result, ladderRun 0 1 1 false blankOut [quietPacket 0 1 3 0 43008] = .ok result
      ∧ Partitions 0 1 1 false [quietPacket 0 1 3 0 43008] result := by
  obtain ⟨result, hrun⟩ := ladderRun_single blankOut checkPacket_firstPacket
  exact ⟨result, hrun, (ladderRun_partitions_iff hrun).mpr (.inr (by decide))⟩

/-- The last count before the counter wraps: the packet's upper count is already `1`. -/
theorem checkPacket_wrappedPacket :
    checkPacket (ladderStart 0 (0 - 1) 1 false) (quietPacket 0 (0 - 1) 1 (0 - 43008) 0) = .ok () :=
  checkPacket_quiet (mainBitmap_quiet ..) (leftBitmap_quiet ..) (rightBitmap_quiet ..)
    (by decide +kernel) (by decide +kernel) (by decide +kernel) (by decide +kernel)
    (by decide +kernel) (by decide +kernel)

/-- **The count wraps unnoticed.** From the declared first count `2 ^ 64 - 1` the checker accepts a
packet of two slots whose upper count is `1`. -/
theorem ladderRun_wrappedPacket_not_partitions :
    ∃ result, ladderRun 0 (0 - 1) 1 false blankOut [quietPacket 0 (0 - 1) 1 (0 - 43008) 0]
        = .ok result
      ∧ ¬ Partitions 0 (2 ^ 64 - 1) 1 false [quietPacket 0 (0 - 1) 1 (0 - 43008) 0] result := by
  obtain ⟨result, hrun⟩ := ladderRun_single blankOut checkPacket_wrappedPacket
  refine ⟨result, hrun, fun hpart => ?_⟩
  rcases inRange_of_partitions hrun hpart with hempty | ⟨hcount, -⟩
  · exact absurd hempty (by decide)
  · exact absurd hcount (by decide)

end AttestedCompute.Ladder
