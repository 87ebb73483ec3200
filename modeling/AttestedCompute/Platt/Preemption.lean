import AttestedCompute.Platt.BlockLines
import AttestedCompute.Platt.Workers

/-!
# Preempted and resumed units

Calls of `run_unit` on one unit, one after the other: each may be asked to stop after any line,
may crash between any two of its steps, and is followed by another call with options of its own.
With a runner that prints for every block what it always prints for it, every set of records a
call holds or stores is the records of the first blocks of the unit, so the receipt does not
depend on how the unit was run.
-/

namespace AttestedCompute.Platt

open Fallible
open Py (Str)

/-! ## Histories -/

/-- What a runner prints that treats every block on its own and finishes. -/
def runnerOutput (T : Int → List Str) (first count : Int) : RunnerOutput where
  lines := (gridBlocks first count.toNat).flatMap T
  stderr := []
  returncode := 0

/-- If the call is about to run a segment, the runner prints the lines of its blocks. -/
def Deterministic (T : Int → List Str) (job : Job) (phase : Phase) (outside : Surroundings) : Prop :=
  ∀ progress, phase = .loop progress → (progress.records.length : Int) < job.upper - job.first →
    outside.output = runnerOutput T (job.first + (progress.records.length : Int))
      (job.upper - (job.first + (progress.records.length : Int)))

/-- Everything that can come of a unit without files: steps of a call, and new calls after one
that has ended or crashed. -/
inductive History (T : Int → List Str) (job : Job) : Options → UnitFiles → Phase → Prop
  | fresh {options files} : files.receipt = none → files.checkpoint = none →
      History T job options files .start
  | step {options files phase} (outside : Surroundings) : History T job options files phase →
      Deterministic T job phase outside →
      History T job options (step job options outside files phase).1
        (step job options outside files phase).2
  | again {options files phase} (options' : Options) : History T job options files phase →
      History T job options' files .start

/-- One call on a unit without files that is neither asked to stop nor out of time. -/
inductive Uninterrupted (T : Int → List Str) (job : Job) (options : Options) :
    UnitFiles → Phase → Prop
  | fresh {files} : files.receipt = none → files.checkpoint = none →
      Uninterrupted T job options files .start
  | step {files phase} (outside : Surroundings) : Uninterrupted T job options files phase →
      Deterministic T job phase outside → outside.stopRequested = false →
      outside.deadlinePassed = false →
      Uninterrupted T job options (step job options outside files phase).1
        (step job options outside files phase).2

/-! ## The records of a unit -/

/-- The number of blocks of a unit. -/
def Job.blocks (job : Job) : Nat := (job.upper - job.first).toNat

/-- The records of the first blocks of a unit. -/
def firstRecords (T : Int → List Str) (job : Job) (k : Nat) : List Record :=
  (gridBlocks job.first k).map fun block => blockRecord (T block) block

/-- The records of a unit. -/
def unitRecords (T : Int → List Str) (job : Job) : List Record := firstRecords T job job.blocks

variable {T : Int → List Str} {job : Job} {options : Options} {outside : Surroundings}
  {files : UnitFiles} {phase : Phase}

@[simp] theorem length_firstRecords (k : Nat) : (firstRecords T job k).length = k := by
  rw [firstRecords, List.length_map, length_gridBlocks]

theorem firstRecords_add (m n : Nat) : firstRecords T job (m + n) =
    firstRecords T job m ++
      (gridBlocks (job.first + m) n).map fun block => blockRecord (T block) block := by
  rw [firstRecords, gridBlocks_add, List.map_append]
  rfl

theorem firstRecords_prefix {k : Nat} (h : k ≤ job.blocks) :
    firstRecords T job k <+: unitRecords T job := by
  rw [unitRecords, ← Nat.add_sub_cancel' h, firstRecords_add]
  exact List.prefix_append _ _

theorem Job.first_le_upper (job : Job) : job.first ≤ job.upper := by
  have hrange := job.range
  simp only [Schedule.unitBlockRange, bind_ok, raiseIf_ok, pure_ok, Prod.mk.injEq, not_or] at hrange
  obtain ⟨_, ⟨_, hunit⟩, hfirst, hupper⟩ := hrange
  have hpos := job.schedule.blocksPerUnit_pos
  have hmul : (job.unit + 1) * job.schedule.blocksPerUnit ≤
      job.schedule.blockCount + job.schedule.blocksPerUnit - 1 := by
    refine (Int.mul_le_mul_of_nonneg_right ?_ (by omega)).trans (Int.ediv_mul_le _ (by omega))
    have hcount : job.schedule.unitCount = (job.schedule.blockCount + job.schedule.blocksPerUnit - 1) /
      job.schedule.blocksPerUnit := rfl
    omega
  rw [← hupper, ← hfirst, le_min_iff]
  rw [Int.add_mul, Int.one_mul] at hmul
  omega

theorem Job.blocks_cast (job : Job) : (job.blocks : Int) = job.upper - job.first := by
  have hle := job.first_le_upper
  rw [Job.blocks]
  omega

/-! ## The invariant -/

/-- The records of the first blocks of the unit, which pass the check of the grid. -/
def RecordsOk (T : Int → List Str) (job : Job) (records : List Record) : Prop :=
  ∃ k ≤ job.blocks, records = firstRecords T job k ∧ validateRecords records job.first = .ok ()

/-- The runner prints the lines of the blocks that follow those the call already had. -/
def StreamOk (T : Int → List Str) (job : Job) (stream : Stream) : Prop :=
  ∃ k ≤ job.blocks, stream.base.records = firstRecords T job k ∧
    stream.firstBlock = job.first + k ∧ stream.blockCount = job.upper - (job.first + k) ∧
    stream.seen ++ stream.pending = (gridBlocks (job.first + k) (job.blocks - k)).flatMap T

/-- The receipt is built from the records of the unit. -/
def BuiltFrom (T : Int → List Str) (job : Job) (receipt : UnitReceipt) : Prop :=
  ∃ segments, buildUnitReceipt job.schedule job.unit (unitRecords T job) segments = .ok receipt

/-- What holds of a call. -/
def PhaseHolds (T : Int → List Str) (job : Job) : Phase → Prop
  | .loop progress => RecordsOk T job progress.records
  | .reading stream => StreamOk T job stream
  | .storeProgress stream merged => StreamOk T job stream ∧ RecordsOk T job merged
  | .renewLease stream => StreamOk T job stream
  | .lineRead stream => StreamOk T job stream
  | .storePreempted merged _ => RecordsOk T job merged
  | .writeLog receipt _ => BuiltFrom T job receipt
  | .testCommit receipt => BuiltFrom T job receipt
  | .readCommit receipt => BuiltFrom T job receipt
  | .replaceCommit receipt => BuiltFrom T job receipt
  | _ => True

/-- What holds of the files. -/
structure FilesHold (T : Int → List Str) (job : Job) (files : UnitFiles) : Prop where
  receipt : ∀ there ∈ files.receipt, BuiltFrom T job there
  checkpoint : ∀ value ∈ files.checkpoint, ∃ records segments,
    value = makeCheckpoint job records segments ∧ RecordsOk T job records

theorem phaseHolds_after {α : Type} {x : Checked α} {next : α → Phase}
    (h : ∀ a, x = .ok a → PhaseHolds T job (next a)) : PhaseHolds T job (.after x next) :=
  Phase.after_rule (fun _ => trivial) h

theorem recordsOk_nil : RecordsOk T job [] := ⟨0, Nat.zero_le _, rfl, rfl⟩

/-- Fresh records of the blocks that follow extend what the call had. -/
theorem mergeRecords_holds {stream : Stream} {k j : Nat} {merged : List Record}
    (hk : k + j ≤ job.blocks) (hbase : stream.base.records = firstRecords T job k)
    (h : mergeRecords job stream
      ((gridBlocks (job.first + k) j).map fun block => blockRecord (T block) block) = .ok merged) :
    RecordsOk T job merged := by
  simp only [mergeRecords, bind_ok, pure_ok] at h
  obtain ⟨_, hvalid, rfl⟩ := h
  refine ⟨k + j, hk, ?_, hvalid⟩
  rw [firstRecords_add, hbase]

/-- The committed prefix of a stream extends what the call had. -/
theorem committedPrefix_holds (hT : ∀ block, BlockText (T block)) {stream : Stream}
    (hstream : StreamOk T job stream) {fresh merged : List Record} {text : Str} {boundary : Nat}
    (hfresh : parseCommittedPrefix stream.seen stream.firstBlock = .ok (fresh, text, boundary))
    (h : mergeRecords job stream fresh = .ok merged) : RecordsOk T job merged := by
  obtain ⟨k, hk, hbase, hfirst, _, hlines⟩ := hstream
  rw [hfirst] at hfresh
  obtain ⟨j, hj, rfl⟩ := parseCommittedPrefix_blocks hT hlines hfresh
  exact mergeRecords_holds (by omega) hbase h

/-- A segment that ends leaves the records of the whole unit. -/
theorem finishSegment_holds (hT : ∀ block, BlockText (T block)) {stream : Stream}
    (hstream : StreamOk T job stream) (hend : stream.pending = []) {elapsed : Rat}
    {progress : Progress} (h : finishSegment job options elapsed stream = .ok progress) :
    RecordsOk T job progress.records := by
  obtain ⟨k, hk, hbase, hfirst, hcount, hlines⟩ := hstream
  rw [hend, List.append_nil] at hlines
  simp only [finishSegment, bind_ok, raiseIf_ok, pure_ok] at h
  obtain ⟨_, _, _, _, parsed, hparsed, merged, hmerged, rfl⟩ := h
  have hblocks : stream.blockCount = ((job.blocks - k : Nat) : Int) := by
    rw [hcount]
    have hcast := job.blocks_cast
    omega
  rw [hlines, hfirst, hblocks] at hparsed
  rw [parseTranscript_blocks hT hparsed] at hmerged
  exact mergeRecords_holds (by omega) hbase hmerged

/-- **The head of the loop** launches the runner on the blocks that are missing, or builds the
receipt from the records of the unit. -/
theorem loopHead_holds {progress : Progress} (hprogress : RecordsOk T job progress.records)
    (hrunner : (progress.records.length : Int) < job.upper - job.first →
      outside.output = runnerOutput T (job.first + (progress.records.length : Int))
        (job.upper - (job.first + (progress.records.length : Int)))) :
    PhaseHolds T job (loopHead job options outside progress) := by
  obtain ⟨k, hk, hrecords, _⟩ := hprogress
  have hlength : progress.records.length = k := by rw [hrecords, length_firstRecords]
  have hcast := job.blocks_cast
  rw [hlength] at hrunner
  rw [loopHead, hlength]
  refine iteInduction (fun hmore => ?_) fun hfull => phaseHolds_after fun receipt hbuilt => ?_
  · refine ⟨k, hk, hrecords, rfl, rfl, ?_⟩
    have hcount : (job.upper - (job.first + (k : Int))).toNat = job.blocks - k := by omega
    rw [hrunner hmore, runnerOutput, hcount]
    rfl
  · have hall : k = job.blocks := by omega
    rw [hrecords, hall] at hbuilt
    have hfrom : BuiltFrom T job receipt := ⟨_, hbuilt⟩
    exact iteInduction (fun _ => hfrom) fun _ => hfrom

/-- One line read leaves the stream as it was, one line further. -/
theorem streamOk_read {stream : Stream} (h : StreamOk T job stream) {line : Str} {rest : List Str}
    (hpending : stream.pending = line :: rest) (committedBlocks : Int) :
    StreamOk T job { stream with
      seen := stream.seen ++ [line], pending := rest, committedBlocks := committedBlocks } := by
  obtain ⟨k, hk, hbase, hfirst, hcount, hlines⟩ := h
  refine ⟨k, hk, hbase, hfirst, hcount, ?_⟩
  rw [hpending] at hlines
  rw [← hlines, List.append_assoc]
  rfl

/-- **One step keeps what holds of the files and of the call.** -/
theorem holds_step (hT : ∀ block, BlockText (T block)) (hfiles : FilesHold T job files)
    (hphase : PhaseHolds T job phase) (hrunner : Deterministic T job phase outside) :
    FilesHold T job (step job options outside files phase).1 ∧
      PhaseHolds T job (step job options outside files phase).2 := by
  have hstore : ∀ {records : List Record} (segments : List Segment), RecordsOk T job records →
      FilesHold T job { files with checkpoint := some (makeCheckpoint job records segments) } := by
    intro records segments hrecords
    refine ⟨hfiles.receipt, fun value hvalue => ⟨records, segments, ?_, hrecords⟩⟩
    exact (Option.some.inj hvalue).symm
  cases phase with
  | start =>
      refine ⟨hfiles, iteInduction (fun _ => trivial) fun _ => ?_⟩
      exact iteInduction (fun _ => trivial) fun _ => recordsOk_nil
  | readReceipt =>
      refine ⟨hfiles, ?_⟩
      simp only [step]
      split
      · trivial
      · exact phaseHolds_after fun _ _ => trivial
  | testCheckpoint => exact ⟨hfiles, iteInduction (fun _ => trivial) fun _ => recordsOk_nil⟩
  | readCheckpoint =>
      refine ⟨hfiles, ?_⟩
      simp only [step]
      split
      · trivial
      · rename_i value hvalue
        obtain ⟨records, segments, rfl, hrecords⟩ := hfiles.checkpoint value hvalue
        refine phaseHolds_after fun loaded hloaded => ?_
        simp only [loadCheckpoint, bind_ok, pure_ok] at hloaded
        obtain ⟨_, _, _, _, _, _, rfl⟩ := hloaded
        exact hrecords
  | loop progress => exact ⟨hfiles, loopHead_holds hphase (hrunner progress rfl)⟩
  | reading stream =>
      refine ⟨hfiles, ?_⟩
      simp only [step, readLine]
      split
      · rename_i hend
        exact phaseHolds_after fun progress hprogress => finishSegment_holds hT hphase hend hprogress
      · rename_i line rest hpending
        have hread := streamOk_read hphase hpending
        refine iteInduction (fun _ => trivial) fun _ => iteInduction (fun _ => ?_) fun _ => hread _
        refine phaseHolds_after fun merged hmerged => ⟨hread _, ?_⟩
        simp only [bind_ok, Prod.exists] at hmerged
        obtain ⟨fresh, text, boundary, hfresh, hmerged⟩ := hmerged
        exact committedPrefix_holds hT (hread 0) hfresh hmerged
  | storeProgress stream merged => exact ⟨hstore _ hphase.2, hphase.1⟩
  | renewLease stream => exact ⟨hfiles, hphase⟩
  | lineRead stream =>
      refine ⟨hfiles, iteInduction (fun _ => ?_) fun _ => iteInduction (fun _ => trivial)
        fun _ => hphase⟩
      refine phaseHolds_after fun kept hkept => ?_
      simp only [preemptedProgress, bind_ok, pure_ok, Prod.exists] at hkept
      obtain ⟨fresh, text, boundary, hfresh, merged, hmerged, rfl⟩ := hkept
      exact committedPrefix_holds hT hphase hfresh hmerged
  | storePreempted merged segments => exact ⟨hstore _ hphase, trivial⟩
  | writeLog receipt logParts => exact ⟨⟨hfiles.receipt, hfiles.checkpoint⟩, hphase⟩
  | testCommit receipt =>
      exact ⟨hfiles, iteInduction (fun _ => hphase) fun _ => hphase⟩
  | readCommit receipt =>
      refine ⟨hfiles, ?_⟩
      simp only [step]
      split
      · trivial
      · split <;> trivial
  | replaceCommit receipt =>
      refine ⟨⟨fun there hthere => ?_, hfiles.checkpoint⟩, trivial⟩
      rw [← Option.some.inj hthere]
      exact hphase
  | unlinkCheckpoint receipt committed =>
      exact ⟨⟨hfiles.receipt, fun value hvalue => by cases hvalue⟩, trivial⟩
  | releaseUnit receipt committed => exact ⟨⟨hfiles.receipt, hfiles.checkpoint⟩, trivial⟩
  | done computed result => exact ⟨hfiles, trivial⟩

/-- **Every history keeps it.** -/
theorem holds_history (hT : ∀ block, BlockText (T block)) (h : History T job options files phase) :
    FilesHold T job files ∧ PhaseHolds T job phase := by
  induction h with
  | fresh hreceipt hcheckpoint =>
      refine ⟨⟨fun there hthere => ?_, fun value hvalue => ?_⟩, trivial⟩
      · rw [hreceipt] at hthere
        cases hthere
      · rw [hcheckpoint] at hvalue
        cases hvalue
  | step outside _ hrunner ih => exact holds_step hT ih.1 ih.2 hrunner
  | again _ _ ih => exact ⟨ih.1, trivial⟩

theorem history_of_uninterrupted (h : Uninterrupted T job options files phase) :
    History T job options files phase := by
  induction h with
  | fresh hreceipt hcheckpoint => exact .fresh hreceipt hcheckpoint
  | step outside _ hrunner _ _ ih => exact .step outside ih hrunner

/-! ## Receipts -/

/-- The digests of a receipt come from its records alone. -/
theorem buildUnitReceipt_digests {schedule : Schedule} {unit : Int} {records : List Record}
    {segments segments' : List Segment} {receipt receipt' : UnitReceipt}
    (h : buildUnitReceipt schedule unit records segments = .ok receipt)
    (h' : buildUnitReceipt schedule unit records segments' = .ok receipt') :
    receipt.recordsSha256 = receipt'.recordsSha256 ∧ receipt.unitSha256 = receipt'.unitSha256 := by
  have hsame : buildUnitReceipt schedule unit records segments' =
      .ok { receipt with segments := segments' } := by
    simp only [buildUnitReceipt, bind_ok, raiseIf_ok, pure_ok, Prod.exists] at h ⊢
    obtain ⟨first, upper, hrange, _, hcount, _, hvalid, recordsSha256, hrecords, firstCount,
      lastCount, hends, _, htelescope, unitSha256, hunit, rfl⟩ := h
    exact ⟨first, upper, hrange, (), hcount, (), hvalid, recordsSha256, hrecords, firstCount,
      lastCount, hends, (), htelescope, unitSha256, hunit, rfl⟩
  rw [hsame, Except.ok.injEq] at h'
  rw [← h']
  exact ⟨rfl, rfl⟩

/-- **Preemption is invisible.** Where an uninterrupted call commits a receipt, every history of
calls that commits one commits the same records with the same digests; they are one record for
each block, in order, and every progress file on the way loads and holds a prefix of them. -/
theorem preemption_invisible (hT : ∀ block, BlockText (T block)) {wholeOptions : Options}
    {wholeFiles : UnitFiles} {wholePhase : Phase} {whole : UnitReceipt}
    (hwhole : Uninterrupted T job wholeOptions wholeFiles wholePhase)
    (hcommitted : wholeFiles.receipt = some whole) (h : History T job options files phase) :
    (unitRecords T job).map Record.block =
      (List.range job.blocks).map (fun i : Nat => job.first + (i : Int)) ∧
    BuiltFrom T job whole ∧
    (∀ there ∈ files.receipt, BuiltFrom T job there ∧
      there.recordsSha256 = whole.recordsSha256 ∧ there.unitSha256 = whole.unitSha256) ∧
    ∀ value ∈ files.checkpoint, ∃ records segments,
      loadCheckpoint job value = .ok (records, segments) ∧ records <+: unitRecords T job := by
  have hwholeBuilt : BuiltFrom T job whole :=
    (holds_history hT (history_of_uninterrupted hwhole)).1.receipt whole hcommitted
  obtain ⟨hfiles, _⟩ := holds_history hT h
  refine ⟨?_, hwholeBuilt, fun there hthere => ?_, fun value hvalue => ?_⟩
  · rw [unitRecords, firstRecords, List.map_map, ← gridBlocks_eq_map]
    exact List.map_id _
  · obtain ⟨segments, hbuilt⟩ := hwholeBuilt
    obtain ⟨segments', hbuilt'⟩ := hfiles.receipt there hthere
    exact ⟨⟨segments', hbuilt'⟩, buildUnitReceipt_digests hbuilt' hbuilt⟩
  · obtain ⟨records, segments, rfl, k, hk, hrecords, hvalid⟩ := hfiles.checkpoint value hvalue
    refine ⟨records, segments, loadCheckpoint_makeCheckpoint ?_ hvalid, ?_⟩
    · rw [hrecords, length_firstRecords, ← job.blocks_cast]
      exact_mod_cast hk
    · rw [hrecords]
      exact firstRecords_prefix hk

/-! ## The one block, preempted between its two lines -/

def oneBlockLooking : Str := "looking for 8-5=3 zeros".toList

/-- A runner that prints the same two lines for every block. -/
def oneBlockText : Int → List Str := fun _ => [oneBlockLooking, oneBlockSuccess]

theorem blockText_oneBlock (block : Int) : BlockText (oneBlockText block) := by
  refine ⟨?_, ?_, ?_, oneBlockSuccess, rfl, oneBlockSuccess_clean.2⟩
  · intro line hline
    rcases List.mem_cons.mp hline with rfl | hline
    · exact prints_five.clean
    · rw [List.mem_singleton.mp hline]
      exact oneBlockSuccess_clean.1
  · have hcount : [oneBlockLooking, oneBlockSuccess].countP isLooking = 1 := rfl
    exact hcount
  · have hcount : [oneBlockLooking, oneBlockSuccess].countP isSuccess = 1 := rfl
    exact hcount

theorem deterministic_oneBlock {phase : Phase} {outside : Surroundings}
    (h : outside.output = ⟨[oneBlockLooking, oneBlockSuccess], [], 0⟩) :
    Deterministic oneBlockText oneBlockJob phase outside := by
  intro progress _ hmore
  have hzero : progress.records.length = 0 := by
    simp only [oneBlockJob] at hmore
    omega
  rw [hzero, h]
  rfl

/-- A history goes on to what a step leads to. -/
theorem History.next {files' : UnitFiles} {phase' : Phase}
    (h : History T job options files phase) (hrunner : Deterministic T job phase outside)
    (hstep : Platt.step job options outside files phase = (files', phase')) :
    History T job options files' phase' := by
  have hnext := History.step outside h hrunner
  rwa [hstep] at hnext

theorem uninterrupted_oneBlock {state : UnitFiles × Phase}
    (h : Relation.ReflTransGen (SoloStep oneBlockJob freshOptions (oneBlockRunner oneBlockLooking))
      (noFiles, .start) state) :
    Uninterrupted oneBlockText oneBlockJob freshOptions state.1 state.2 := by
  induction h with
  | refl => exact .fresh rfl rfl
  | tail _ hstep ih =>
      rw [hstep.2]
      exact .step _ ih (deterministic_oneBlock rfl) rfl rfl

theorem history_oneBlock {start state : UnitFiles × Phase}
    (hstart : History oneBlockText oneBlockJob freshOptions start.1 start.2)
    (h : Relation.ReflTransGen (SoloStep oneBlockJob freshOptions (oneBlockRunner oneBlockLooking))
      start state) :
    History oneBlockText oneBlockJob freshOptions state.1 state.2 := by
  induction h with
  | refl => exact hstart
  | tail _ hstep ih =>
      rw [hstep.2]
      exact .step _ ih (deterministic_oneBlock rfl)

/-- A call that is asked to stop after the first of the two lines leaves an empty progress file. -/
theorem preempted_oneBlock : History oneBlockText oneBlockJob freshOptions
    { noFiles with checkpoint := some (makeCheckpoint oneBlockJob [] []) } .start := by
  have hfresh : History oneBlockText oneBlockJob freshOptions noFiles .start := .fresh rfl rfl
  have hline := history_oneBlock hfresh (oneBlock_firstLine prints_five rfl)
  let stopping : Surroundings := { oneBlockRunner oneBlockLooking with stopRequested := true }
  have hprefix : parseCommittedPrefix [oneBlockLooking] 0 = .ok ([], [], 0) := by
    have hscan : scanBoundary 0 (0, 0) [oneBlockLooking] = (0, 0) := rfl
    rw [parseCommittedPrefix, hscan]
    rfl
  have hkept : preemptedProgress oneBlockJob 0
      (oneBlockStream [oneBlockLooking] [oneBlockSuccess] 0) = .ok ([], []) := by
    simp only [preemptedProgress, mergeRecords, bind_ok, pure_ok, Prod.exists]
    exact ⟨[], [], 0, hprefix, [], ⟨(), rfl, rfl⟩, rfl⟩
  have hstop : step oneBlockJob freshOptions stopping noFiles
      (.lineRead (oneBlockStream [oneBlockLooking] [oneBlockSuccess] 0)) =
        (noFiles, .storePreempted [] []) := by
    have hafter : Phase.after (preemptedProgress oneBlockJob 0
        (oneBlockStream [oneBlockLooking] [oneBlockSuccess] 0))
          (fun kept => .storePreempted kept.1 kept.2) = .storePreempted [] [] := by
      rw [hkept]
      rfl
    exact congrArg (Prod.mk noFiles) hafter
  have hstored := (hline.next (deterministic_oneBlock rfl) hstop).next
    (@deterministic_oneBlock _ stopping rfl) rfl
  exact hstored.again freshOptions

/-- The call that follows commits what an uninterrupted call commits. -/
theorem preemption_invisible_oneBlock : ∃ (whole there : UnitReceipt) (value : Checkpoint)
    (files : UnitFiles) (phase : Phase), History oneBlockText oneBlockJob freshOptions files phase ∧
      files.receipt = some there ∧ files.checkpoint = some value ∧
      there.unitSha256 = whole.unitSha256 ∧
      ∃ records segments, loadCheckpoint oneBlockJob value = .ok (records, segments) ∧
        records <+: unitRecords oneBlockText oneBlockJob := by
  obtain ⟨whole, _, _, hwhole⟩ := @oneBlock_steps noFiles _ _ prints_five (by decide) rfl
  obtain ⟨there, _, _, hthere⟩ := @oneBlock_steps
    { noFiles with checkpoint := some (makeCheckpoint oneBlockJob [] []) } _ _ prints_five
    (by decide) rfl
  have hcommit := Uninterrupted.step (oneBlockRunner oneBlockLooking)
    (Uninterrupted.step (oneBlockRunner oneBlockLooking) (uninterrupted_oneBlock hwhole)
      (deterministic_oneBlock rfl) rfl rfl) (deterministic_oneBlock rfl) rfl rfl
  have hresumed := ((history_oneBlock preempted_oneBlock hthere).step
    (oneBlockRunner oneBlockLooking) (deterministic_oneBlock rfl)).step
      (oneBlockRunner oneBlockLooking) (deterministic_oneBlock rfl)
  obtain ⟨_, _, hreceipts, hcheckpoints⟩ :=
    preemption_invisible blockText_oneBlock hcommit rfl hresumed
  exact ⟨whole, there, _, _, _, hresumed, rfl, rfl, (hreceipts there rfl).2.2, hcheckpoints _ rfl⟩

end AttestedCompute.Platt
