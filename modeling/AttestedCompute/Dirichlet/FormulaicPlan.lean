import AttestedCompute.Lib.Batches
import AttestedCompute.Lib.Fallible
import AttestedCompute.Lib.JsonAscii
import AttestedCompute.Lib.Sha256

/-!
# The formulaic plan

`tg_verifier/dirichlet_formulaic_qmajor_cursor.py` joins an execution order of moduli, each with
a number of ordinates, to a partition of the ordinates into archive lanes. Its targets are
batches of consecutive ordinates of one modulus in one lane. No list of targets is ever stored:
`formulaicAccounting` computes how many there are from the lengths of the stretches.

What a modulus needs is the batches of the whole stretch `[0, t_index_count)`: a lane boundary
is a multiple of the batch size, so the lanes cut no batch in two.
-/

namespace AttestedCompute.Dirichlet.Formulaic

open Fallible

/-! ## Values and errors -/

/-- What a Python object looks like to the checks. -/
inductive PyValue where
  | int (n : Int)
  | bool (b : Bool)
  | float (x : Rat)
  | str (t : Text)
  | other
  deriving DecidableEq

/-- `value == n` -/
def PyValue.eqInt : PyValue → Int → Bool
  | .int m, n => m = n
  | .bool b, n => (if b then 1 else 0) = n
  | .float x, n => x = n
  | .str _, _ => false
  | .other, _ => false

/-- `value == t` -/
def PyValue.eqStr : PyValue → Text → Bool
  | .str s, t => s = t
  | _, _ => false

/-- The exceptions of the cursor. -/
inductive DirichletFormulaicQMajorError where
  | failed (message : String)
  /-- `struct.error` -/
  | struct
  /-- `IndexError` -/
  | index
  /-- An exception of the JSON codec. -/
  | json (fault : Json.Fault)
  deriving DecidableEq, Repr

abbrev Checked := Except DirichletFormulaicQMajorError

/-- `_integer` -/
def integer (value : PyValue) (label : String) (minimum maximum : Int) : Checked Int :=
  let refusal := label ++ " is outside [" ++ toString minimum ++ "," ++ toString maximum ++ "]"
  match value with
  | .int n => if minimum ≤ n ∧ n ≤ maximum then .ok n else .error (.failed refusal)
  | _ => .error (.failed refusal)

/-- The default `maximum` of `_integer`. -/
def INTEGER_MAXIMUM : Int := 2 ^ 63 - 1

theorem integer_ok {value : PyValue} {label : String} {minimum maximum n : Int} :
    integer value label minimum maximum = .ok n ↔
      value = .int n ∧ minimum ≤ n ∧ n ≤ maximum := by
  cases value with
  | int m =>
      simp only [integer, PyValue.int.injEq]
      split
      · rename_i h
        rw [Except.ok.injEq]
        exact ⟨by rintro rfl; exact ⟨rfl, h⟩, And.left⟩
      · rename_i h
        exact ⟨fun hn => (by cases hn), by rintro ⟨rfl, hn⟩; exact absurd hn h⟩
  | bool b => simp [integer]
  | float x => simp [integer]
  | str t => simp [integer]
  | other => simp [integer]

/-! ## Schedules and lanes -/

def MAXIMUM_BATCH_COUNT : Int := 64

/-- One record `<II` of the execution order. -/
structure ScheduleRecord where
  q : Int
  tIndexCount : Int
  q_word : 0 ≤ q ∧ q < 2 ^ 32
  tIndexCount_word : 0 ≤ tIndexCount ∧ tIndexCount < 2 ^ 32
  deriving DecidableEq, Repr

/-- What a parsed manifest tells the cursor; its record count is a 64-bit word. -/
structure ParsedScheduleManifest where
  classification : Text
  executionRecords : List ScheduleRecord
  executionOrderSha256 : Text
  manifestSha256 : Text
  length_word : executionRecords.length < 2 ^ 64

@[ext]
structure LaneRange where
  laneIndex : Int
  firstTIndex : Int
  tIndexStopExclusive : Int
  deriving DecidableEq, Repr

@[ext]
structure FormulaicTarget where
  executionQIndex : Int
  q : Int
  laneIndex : Int
  firstTIndex : Int
  tIndexStopExclusive : Int
  deriving DecidableEq, Repr

def FormulaicTarget.batchCount (target : FormulaicTarget) : Int :=
  target.tIndexStopExclusive - target.firstTIndex

def FULL_SOURCE_CLASSIFICATION : Text := Text.ofString "full-primitive-v2-source-permutation"

def sourceLanes : List LaneRange := [
  ⟨0, 0, 896⟩, ⟨1, 896, 1664⟩, ⟨2, 1664, 2560⟩, ⟨3, 2560, 3328⟩, ⟨4, 3328, 4352⟩,
  ⟨5, 4352, 5888⟩, ⟨6, 5888, 10240⟩, ⟨7, 10240, 127988⟩]

def PINNED_SOURCE_TARGETS : Int := 56981100

def PINNED_SOURCE_ROWS : Int := 3637613167

def PINNED_SOURCE_LANE_TARGETS : List Int :=
  [4095000, 3510000, 4095000, 3510000, 4387802, 5051668, 8203438, 24128192]

def PINNED_SOURCE_LANE_ROWS : List Int :=
  [262080000, 224640000, 262080000, 224640000, 279192643, 321229090, 522267482, 1541483952]

/-! ## Validation -/

/-- The loop of `validate_lanes` from one lane on; the result is the last `expected_start`. -/
def checkLanes (maximumBatchCount : Int) : Nat → Int → List LaneRange → Checked Int
  | _, expectedStart, [] => pure expectedStart
  | expectedIndex, expectedStart, lane :: rest => do
      let laneIndex ← integer (.int lane.laneIndex) "lane index" 0 INTEGER_MAXIMUM
      let firstT ← integer (.int lane.firstTIndex) "lane first t" 0 INTEGER_MAXIMUM
      let stopT ← integer (.int lane.tIndexStopExclusive) "lane t stop" 1 INTEGER_MAXIMUM
      refuseIf (laneIndex ≠ expectedIndex ∨ firstT ≠ expectedStart ∨ stopT ≤ firstT)
        (.failed "formulaic lanes are skipped, reordered, overlapping, or empty")
      refuseIf (rest ≠ [] ∧ stopT % maximumBatchCount ≠ 0)
        (.failed "internal lane boundary splits a canonical target batch")
      checkLanes maximumBatchCount (expectedIndex + 1) stopT rest

def validateLanes (lanes : List LaneRange) (requiredTStop maximumBatchCount : Int) :
    Checked (List LaneRange) := do
  let requiredTStop ← integer (.int requiredTStop) "required t stop" 1 INTEGER_MAXIMUM
  let maximumBatchCount ←
    integer (.int maximumBatchCount) "maximum batch count" 1 MAXIMUM_BATCH_COUNT
  refuseIf (lanes = []) (.failed "formulaic cursor has no t-major lanes")
  let expectedStart ← checkLanes maximumBatchCount 0 0 lanes
  refuseIf (expectedStart < requiredTStop)
    (.failed "formulaic lanes do not cover the exact required t range")
  pure lanes

/-- `_slice_bounds` -/
def sliceBounds (schedule : ParsedScheduleManifest) (startExecutionQIndex : Int)
    (stopExecutionQIndex : Option Int) : Checked (Int × Int) := do
  let count : Int := schedule.executionRecords.length
  let start ← integer (.int startExecutionQIndex) "start execution q index" 0 count
  let stop ←
    match stopExecutionQIndex with
    | none => pure count
    | some stop => integer (.int stop) "stop execution q index" 0 count
  refuseIf (start ≥ stop) (.failed "formulaic q slice is empty or reversed")
  pure (start, stop)

/-- `execution_records[start:stop]` -/
def ParsedScheduleManifest.slice (schedule : ParsedScheduleManifest) (start stop : Int) :
    List ScheduleRecord :=
  (schedule.executionRecords.take stop.toNat).drop start.toNat

/-- The largest `t_index_count` of a list of records. -/
def requiredStop (records : List ScheduleRecord) : Int :=
  records.foldl (fun stop record => max stop record.tIndexCount) 0

/-! ## The plan -/

def ALGORITHM_ID : Text := Text.ofString "platt-dirichlet-formulaic-qmajor-target-cursor-v1"

/-- `hashlib.sha256(canonical_json_bytes(value))` -/
def canonicalSha256 (value : Json) : Checked Bytes :=
  match Json.asciiBytes value with
  | .ok bytes => .ok (Sha256.digest (bytes ++ [0x0A]))
  | .error fault => .error (.json fault)

def LaneRange.report (lane : LaneRange) : Json := .object [
  ("lane_index", .int lane.laneIndex),
  ("first_t_index", .int lane.firstTIndex),
  ("t_index_stop_exclusive", .int lane.tIndexStopExclusive),
  ("row_count", .int (lane.tIndexStopExclusive - lane.firstTIndex))]

/-- The result of `plan_identity`; the digest is its 32 bytes. -/
structure PlanIdentity where
  scheduleManifestSha256 : Text
  scheduleClassification : Text
  scheduleExecutionOrderSha256 : Text
  startExecutionQIndex : Int
  stopExecutionQIndex : Int
  maximumBatchCount : Int
  lanes : List LaneRange
  planSha256 : Bytes

/-- The members of the body that is hashed. -/
def PlanIdentity.members (plan : PlanIdentity) : List (String × Json) := [
  ("algorithm_id", .str ALGORITHM_ID),
  ("schedule_manifest_sha256", .str plan.scheduleManifestSha256),
  ("schedule_classification", .str plan.scheduleClassification),
  ("schedule_execution_order_sha256", .str plan.scheduleExecutionOrderSha256),
  ("start_execution_q_index", .int plan.startExecutionQIndex),
  ("stop_execution_q_index", .int plan.stopExecutionQIndex),
  ("maximum_batch_count", .int plan.maximumBatchCount),
  ("lanes", .arr (plan.lanes.map LaneRange.report))]

def planIdentity (schedule : ParsedScheduleManifest) (lanes : List LaneRange)
    (startExecutionQIndex : Int) (stopExecutionQIndex : Option Int) (maximumBatchCount : Int) :
    Checked PlanIdentity := do
  let (start, stop) ← sliceBounds schedule startExecutionQIndex stopExecutionQIndex
  let checkedLanes ←
    validateLanes lanes (requiredStop (schedule.slice start stop)) maximumBatchCount
  let body : PlanIdentity :=
    { scheduleManifestSha256 := schedule.manifestSha256
      scheduleClassification := schedule.classification
      scheduleExecutionOrderSha256 := schedule.executionOrderSha256
      startExecutionQIndex := start
      stopExecutionQIndex := stop
      maximumBatchCount := maximumBatchCount
      lanes := checkedLanes
      planSha256 := [] }
  let hash ← canonicalSha256 (.object body.members)
  pure { body with planSha256 := hash }

/-! ## The accounting -/

/-- Targets and rows by lane. -/
@[ext]
structure LaneTotals where
  targetCounts : List Int
  rowCounts : List Int
  deriving DecidableEq, Repr

/-- `[0] * len(lanes)`, twice. -/
def LaneTotals.zero (lanes : List LaneRange) : LaneTotals :=
  ⟨List.replicate lanes.length 0, List.replicate lanes.length 0⟩

/-- Add to the counts of one lane. -/
def LaneTotals.add (totals : LaneTotals) (laneIndex targets rows : Int) : LaneTotals where
  targetCounts := totals.targetCounts.modify laneIndex.toNat (· + targets)
  rowCounts := totals.rowCounts.modify laneIndex.toNat (· + rows)

/-- The rows of one modulus in one lane. -/
def accountLane (maximumBatchCount : Int) (record : ScheduleRecord) (totals : LaneTotals)
    (lane : LaneRange) : LaneTotals :=
  let activeRows := max 0 (min record.tIndexCount lane.tIndexStopExclusive - lane.firstTIndex)
  if activeRows ≠ 0 then
    totals.add lane.laneIndex ((activeRows + maximumBatchCount - 1) / maximumBatchCount) activeRows
  else totals

def accountRecord (maximumBatchCount : Int) (lanes : List LaneRange) (totals : LaneTotals)
    (record : ScheduleRecord) : LaneTotals :=
  lanes.foldl (accountLane maximumBatchCount record) totals

/-- The result of `formulaic_accounting`. -/
structure FormulaicAccounting where
  plan : PlanIdentity
  qCount : Int
  targetCount : Int
  rowReferenceCount : Int
  perLane : LaneTotals
  sourceScalePinsMatched : Bool
  accountingSha256 : Bytes

def ATOM_ID : Text := Text.ofString "platt-dirichlet-theorem-7-1"

def AUTHOR : Text := Text.ofString "Gershon Bialer"

def ACCOUNTING_SCHEMA : Text :=
  Text.ofString "sparkinterval.tg.dirichlet_formulaic_qmajor.accounting.v1"

/-- The body that is hashed. -/
def FormulaicAccounting.body (accounting : FormulaicAccounting) : Json := .object (
  [("schema", .str ACCOUNTING_SCHEMA),
    ("schema_version", .int 1),
    ("author", .str AUTHOR),
    ("atom_id", .str ATOM_ID)] ++
  accounting.plan.members ++
  [("plan_sha256", .str (Text.ofString accounting.plan.planSha256.hex)),
    ("q_count", .int accounting.qCount),
    ("target_count", .int accounting.targetCount),
    ("row_reference_count", .int accounting.rowReferenceCount),
    ("per_lane_target_counts", .arr (accounting.perLane.targetCounts.map .int)),
    ("per_lane_row_reference_counts", .arr (accounting.perLane.rowCounts.map .int)),
    ("constant_memory_target_generation", .bool true),
    ("serialized_control_records_required", .int 0),
    ("source_scale_pins_matched", .bool accounting.sourceScalePinsMatched),
    ("lattice_rows_read_or_validated", .bool false),
    ("cuda_executed", .bool false),
    ("completed_l_zero_state_validated", .bool false),
    ("trusted_execution_attested", .bool false),
    ("external_atom_discharged", .bool false)])

/-- The plan is the whole source campaign. -/
def PlanIdentity.isFullSource (plan : PlanIdentity) (schedule : ParsedScheduleManifest) : Prop :=
  schedule.classification = FULL_SOURCE_CLASSIFICATION ∧ plan.startExecutionQIndex = 0 ∧
    plan.stopExecutionQIndex = schedule.executionRecords.length ∧ plan.lanes = sourceLanes ∧
    plan.maximumBatchCount = MAXIMUM_BATCH_COUNT

instance (plan : PlanIdentity) (schedule : ParsedScheduleManifest) :
    Decidable (plan.isFullSource schedule) :=
  inferInstanceAs (Decidable (_ ∧ _ ∧ _ ∧ _ ∧ _))

def formulaicAccounting (schedule : ParsedScheduleManifest) (lanes : List LaneRange)
    (startExecutionQIndex : Int) (stopExecutionQIndex : Option Int) (maximumBatchCount : Int) :
    Checked FormulaicAccounting := do
  let plan ←
    planIdentity schedule lanes startExecutionQIndex stopExecutionQIndex maximumBatchCount
  let perLane := (schedule.slice plan.startExecutionQIndex plan.stopExecutionQIndex).foldl
    (accountRecord maximumBatchCount plan.lanes) (LaneTotals.zero plan.lanes)
  let targetCount := perLane.targetCounts.sum
  let rowCount := perLane.rowCounts.sum
  refuseIf (plan.isFullSource schedule ∧ (targetCount ≠ PINNED_SOURCE_TARGETS
      ∨ rowCount ≠ PINNED_SOURCE_ROWS ∨ perLane.targetCounts ≠ PINNED_SOURCE_LANE_TARGETS
      ∨ perLane.rowCounts ≠ PINNED_SOURCE_LANE_ROWS))
    (.failed "formulaic full-source accounting differs from independent pins")
  let result : FormulaicAccounting :=
    { plan := plan
      qCount := plan.stopExecutionQIndex - plan.startExecutionQIndex
      targetCount := targetCount
      rowReferenceCount := rowCount
      perLane := perLane
      sourceScalePinsMatched := plan.isFullSource schedule
      accountingSha256 := [] }
  let hash ← canonicalSha256 result.body
  pure { result with accountingSha256 := hash }

end AttestedCompute.Dirichlet.Formulaic
