import AttestedCompute.Platt.Transcript

/-!
# Running a unit

`run_unit` as a machine that takes one step of the file system at a time: existence tests, reads,
atomic replacements and removals are steps of their own, so that anything can happen between them.
What a call finds outside the files it learns from its surroundings: the output of the runner, the
measured time, and whether it is asked to stop.
-/

namespace AttestedCompute.Platt

open Fallible
open Py (Str)

/-! ## Calls -/

/-- A unit of a schedule with its range of blocks. -/
structure Job where
  schedule : Schedule
  unit : Int
  first : Int
  upper : Int
  range : schedule.unitBlockRange unit = .ok (first, upper)

/-- The keyword arguments of `run_unit`. -/
structure Options where
  checkpointBlocks : Int
  retainLog : Bool
  /-- `timeout_seconds is not None` -/
  timed : Bool
  resume : Bool
  checkpointBlocks_pos : 1 ≤ checkpointBlocks

/-- The checks `run_unit` makes before it looks at the files of the unit. -/
def prepareUnit (schedule : Schedule) (runnerIdentity : Text × Int) (unit checkpointBlocks : Int)
    (retainLog timed resume : Bool) : Checked (Job × Options) := do
  raiseIf (runnerIdentity ≠ (schedule.runnerSha256, schedule.runnerSize))
    "runner identity differs from the schedule"
  if hpos : 1 ≤ checkpointBlocks then
    match hrange : schedule.unitBlockRange unit with
    | .ok (first, upper) =>
        pure (⟨schedule, unit, first, upper, hrange⟩,
          ⟨checkpointBlocks, retainLog, timed, resume, hpos⟩)
    | .error e => .error e
  else .error (.schedule "checkpoint_blocks must be positive")

/-! ## Files -/

/-- The progress file of a unit. -/
structure Checkpoint where
  schema : Text
  scheduleSha256 : Text
  unitIndex : Int
  firstBlock : Int
  upperBlockExclusive : Int
  committedBlocks : Int
  records : List Record
  segments : List Segment
  deriving DecidableEq

/-- The files of one unit. -/
structure UnitFiles where
  receipt : Option UnitReceipt
  checkpoint : Option Checkpoint
  log : Option Str
  lease : Bool

/-- What the progress file of a unit holds. -/
def makeCheckpoint (job : Job) (records : List Record) (segments : List Segment) : Checkpoint where
  schema := Text.ofString "sparkinterval.tg.platt-pt21-windowed-unit-progress.v1"
  scheduleSha256 := job.schedule.scheduleSha256
  unitIndex := job.unit
  firstBlock := job.first
  upperBlockExclusive := job.upper
  committedBlocks := records.length
  records := records
  segments := segments

/-- `_load_checkpoint` on a progress file that is there. -/
def loadCheckpoint (job : Job) (value : Checkpoint) : Checked (List Record × List Segment) := do
  raiseIf (value.scheduleSha256 ≠ job.schedule.scheduleSha256 ∨ value.unitIndex ≠ job.unit ∨
      value.firstBlock ≠ job.first ∨ value.upperBlockExclusive ≠ job.upper)
    "retained checkpoint does not match the schedule"
  raiseIf ((value.records.length : Int) > job.upper - job.first)
    "retained checkpoint overruns its unit"
  validateRecords value.records job.first
  pure (value.records, value.segments)

/-- A file that is gone between the test and the read; the message goes on with the path. -/
def cannotLoad : PlattError := .schedule "cannot load"

/-! ## The surroundings -/

/-- What one invocation of the runner prints, and how it ends. -/
structure RunnerOutput where
  lines : List Str
  stderr : Str
  returncode : Int

/-- What a step can learn from outside the files. -/
structure Surroundings where
  output : RunnerOutput
  elapsed : Rat
  stopRequested : Bool
  deadlinePassed : Bool

/-! ## Phases -/

/-- The local variables of the loop of `run_unit`. -/
structure Progress where
  records : List Record
  segments : List Segment
  logParts : List Str

/-- The local variables of `_run_segment`, and what the loop had before it. -/
structure Stream where
  base : Progress
  firstBlock : Int
  blockCount : Int
  seen : List Str
  pending : List Str
  stderr : Str
  returncode : Int
  committedBlocks : Int

/-- Where a call of `run_unit` stands. -/
inductive Phase where
  /-- `existing.exists()` is next. -/
  | start
  | readReceipt
  | testCheckpoint
  | readCheckpoint
  /-- The test of the loop is next. -/
  | loop (progress : Progress)
  /-- The next line of the runner is next. -/
  | reading (stream : Stream)
  | storeProgress (stream : Stream) (merged : List Record)
  | renewLease (stream : Stream)
  /-- The tests at the end of the loop over the lines are next. -/
  | lineRead (stream : Stream)
  | storePreempted (merged : List Record) (segments : List Segment)
  | writeLog (receipt : UnitReceipt) (logParts : List Str)
  /-- `path.exists()` of `_commit_unit` is next. -/
  | testCommit (receipt : UnitReceipt)
  | readCommit (receipt : UnitReceipt)
  | replaceCommit (receipt : UnitReceipt)
  | unlinkCheckpoint (receipt committed : UnitReceipt)
  | releaseUnit (receipt committed : UnitReceipt)
  /-- The call has ended; the receipt is the one it has computed. -/
  | done (computed : Option UnitReceipt) (result : Checked UnitReceipt)

/-- The call ends with an exception before it has computed a receipt. -/
def Phase.fail (e : PlattError) : Phase := .done none (.error e)

/-- Go on with a result, or end with its exception. -/
def Phase.after {α : Type} (x : Checked α) (next : α → Phase) : Phase :=
  match x with
  | .ok a => next a
  | .error e => .fail e

/-- The receipt that a call has computed. -/
def Phase.computed : Phase → Option UnitReceipt
  | .writeLog receipt _ => some receipt
  | .testCommit receipt => some receipt
  | .readCommit receipt => some receipt
  | .replaceCommit receipt => some receipt
  | .unlinkCheckpoint receipt _ => some receipt
  | .releaseUnit receipt _ => some receipt
  | .done computed _ => computed
  | _ => none

section

variable (job : Job) (options : Options)

/-- The head of the loop: run another segment, or build the receipt. -/
def loopHead (outside : Surroundings) (progress : Progress) : Phase :=
  let done : Int := progress.records.length
  if done < job.upper - job.first then
    .reading
      { base := progress
        firstBlock := job.first + done
        blockCount := job.upper - (job.first + done)
        seen := []
        pending := outside.output.lines
        stderr := outside.output.stderr
        returncode := outside.output.returncode
        committedBlocks := 0 }
  else
    .after (buildUnitReceipt job.schedule job.unit progress.records progress.segments)
      fun receipt =>
        if options.retainLog ∧ progress.logParts ≠ [] then .writeLog receipt progress.logParts
        else .testCommit receipt

/-- The records of the loop with fresh ones from its runner. -/
def mergeRecords (stream : Stream) (fresh : List Record) : Checked (List Record) := do
  validateRecords (stream.base.records ++ fresh) job.first
  pure (stream.base.records ++ fresh)

/-- The runner has ended: what `_run_segment` checks and what the loop takes over. -/
def finishSegment (elapsed : Rat) (stream : Stream) : Checked Progress := do
  raiseIf (stream.stderr ≠ []) "windowed checker wrote to stderr"
  raiseIf (stream.returncode ≠ 0) ("windowed checker exited " ++ toString stream.returncode)
  let text := joinLines stream.seen
  let parsed ← parseTranscript text stream.firstBlock stream.blockCount
  let records ← mergeRecords job stream parsed.records
  pure
    { records := records
      segments := stream.base.segments ++ [
        { firstBlock := stream.firstBlock
          blockCount := parsed.records.length
          stdoutSha256 := textSha256 text
          elapsedSeconds := elapsed
          terminatedByPreemption := false }]
      logParts := if options.retainLog then stream.base.logParts ++ [text]
        else stream.base.logParts }

/-- One line of the runner, or its end. -/
def readLine (outside : Surroundings) (stream : Stream) : Phase :=
  match stream.pending with
  | [] => .after (finishSegment job options outside.elapsed stream) .loop
  | line :: rest =>
      if failureToken line ≠ none then .fail (.schedule (failureMessage line))
      else
        let committedBlocks :=
          if isSuccess line then stream.committedBlocks + 1 else stream.committedBlocks
        let stream := { stream with
          seen := stream.seen ++ [line], pending := rest, committedBlocks := committedBlocks }
        if isSuccess line ∧ committedBlocks % options.checkpointBlocks = 0 then
          .after (do
              let (fresh, _, _) ← parseCommittedPrefix stream.seen stream.firstBlock
              mergeRecords job stream fresh)
            (.storeProgress stream)
        else .lineRead stream

/-- What a preempted call keeps. -/
def preemptedProgress (elapsed : Rat) (stream : Stream) :
    Checked (List Record × List Segment) := do
  let (fresh, text, _) ← parseCommittedPrefix stream.seen stream.firstBlock
  let merged ← mergeRecords job stream fresh
  pure (merged,
    if fresh = [] then stream.base.segments
    else stream.base.segments ++ [
      { firstBlock := stream.firstBlock
        blockCount := fresh.length
        stdoutSha256 := textSha256 text
        elapsedSeconds := elapsed
        terminatedByPreemption := true }])

/-- The end of the loop over the lines: is the call to stop, is it out of time? -/
def endOfLine (outside : Surroundings) (stream : Stream) : Phase :=
  if outside.stopRequested then
    .after (preemptedProgress job outside.elapsed stream) fun kept =>
      .storePreempted kept.1 kept.2
  else if options.timed ∧ outside.deadlinePassed then
    .fail (.schedule "runner exceeded its timeout")
  else .reading stream

def preemptedMessage (merged : List Record) : String :=
  "unit " ++ toString job.unit ++ " preempted with " ++ toString merged.length ++ " of "
    ++ toString (job.upper - job.first) ++ " blocks committed"

/-- `_commit_unit` on a receipt that is there. -/
def checkRetained (receipt retained : UnitReceipt) : Checked UnitReceipt := do
  validateUnitReceipt retained job.schedule job.unit
  raiseIf (retained.unitSha256 ≠ receipt.unitSha256)
    "duplicate execution of a unit produced a different semantic digest"
  pure retained

/-- **One step of a call.** -/
def step (outside : Surroundings) (files : UnitFiles) : Phase → UnitFiles × Phase
  | .start =>
      (files,
        if files.receipt.isSome then .readReceipt
        else if options.resume then .testCheckpoint
        else .loop ⟨[], [], []⟩)
  | .readReceipt =>
      (files,
        match files.receipt with
        | none => .fail cannotLoad
        | some retained =>
            .after (validateUnitReceipt retained job.schedule job.unit) fun _ =>
              .done none (.ok retained))
  | .testCheckpoint =>
      (files, if files.checkpoint.isSome then .readCheckpoint else .loop ⟨[], [], []⟩)
  | .readCheckpoint =>
      (files,
        match files.checkpoint with
        | none => .fail cannotLoad
        | some value =>
            .after (loadCheckpoint job value) fun loaded => .loop ⟨loaded.1, loaded.2, []⟩)
  | .loop progress => (files, loopHead job options outside progress)
  | .reading stream => (files, readLine job options outside stream)
  | .storeProgress stream merged =>
      ({ files with checkpoint := some (makeCheckpoint job merged stream.base.segments) },
        .renewLease stream)
  | .renewLease stream => (files, .lineRead stream)
  | .lineRead stream => (files, endOfLine job options outside stream)
  | .storePreempted merged segments =>
      ({ files with checkpoint := some (makeCheckpoint job merged segments) },
        .fail (.preempted (preemptedMessage job merged)))
  | .writeLog receipt logParts =>
      ({ files with log := some logParts.flatten }, .testCommit receipt)
  | .testCommit receipt =>
      (files, if files.receipt.isSome then .readCommit receipt else .replaceCommit receipt)
  | .readCommit receipt =>
      (files,
        match files.receipt with
        | none => .done (some receipt) (.error cannotLoad)
        | some retained =>
            match checkRetained job receipt retained with
            | .ok committed => .unlinkCheckpoint receipt committed
            | .error e => .done (some receipt) (.error e))
  | .replaceCommit receipt =>
      ({ files with receipt := some receipt }, .unlinkCheckpoint receipt receipt)
  | .unlinkCheckpoint receipt committed =>
      ({ files with checkpoint := none }, .releaseUnit receipt committed)
  | .releaseUnit receipt committed =>
      ({ files with lease := false }, .done (some receipt) (.ok committed))
  | .done computed result => (files, .done computed result)

end

/-! ## Rules for what a step leads to -/

/-- What holds of failures and of everything a result goes on to. -/
theorem Phase.after_rule {motive : Phase → Prop} {α : Type} {x : Checked α} {next : α → Phase}
    (hfail : ∀ e, motive (.fail e)) (h : ∀ a, x = .ok a → motive (next a)) :
    motive (.after x next) := by
  cases x with
  | ok a => exact h a rfl
  | error e => exact hfail e

theorem loadCheckpoint_makeCheckpoint {job : Job} {records : List Record} {segments : List Segment}
    (hlength : (records.length : Int) ≤ job.upper - job.first)
    (hvalid : validateRecords records job.first = .ok ()) :
    loadCheckpoint job (makeCheckpoint job records segments) = .ok (records, segments) := by
  simp only [loadCheckpoint, bind_ok, raiseIf_ok, pure_ok]
  refine ⟨(), ?_, (), not_lt.mpr hlength, (), hvalid, rfl⟩
  simp [makeCheckpoint]

end AttestedCompute.Platt
