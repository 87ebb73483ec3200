import AttestedCompute.Dirichlet.FormulaicTargets

/-!
# The formulaic cursor

`FormulaicQMajorCursor` hands out the targets of a plan one by one and keeps nothing but where
it stands: an execution index, a lane and the next ordinate. Asking for the next target may move
the cursor on past lanes and moduli with nothing left in them, also when the request it is part
of then fails.

What the proofs carry is the list of targets the cursor has still to hand out. Moving on past
empty lanes leaves that list as it is, the next target is its head, and accepting it takes the
tail.
-/

namespace AttestedCompute.Dirichlet.Formulaic

open Fallible

/-! ## Packed targets -/

/-- One little-endian unsigned field of `struct.pack`. -/
def packWord (width : Nat) (n : Int) : Checked Bytes :=
  if 0 ≤ n ∧ n < 256 ^ width then .ok (Bytes.ofNatBE width n.toNat).reverse
  else .error .struct

namespace FormulaicTarget

/-- `TARGET_RECORD.pack`, `<QIIIII` -/
def packed (target : FormulaicTarget) : Checked Bytes := do
  let executionQIndex ← packWord 8 target.executionQIndex
  let q ← packWord 4 target.q
  let laneIndex ← packWord 4 target.laneIndex
  let firstTIndex ← packWord 4 target.firstTIndex
  let tIndexStopExclusive ← packWord 4 target.tIndexStopExclusive
  let batchCount ← packWord 4 target.batchCount
  pure (executionQIndex ++ q ++ laneIndex ++ firstTIndex ++ tIndexStopExclusive ++ batchCount)

def TARGET_DOMAIN : Bytes := Text.utf8 (Text.ofString "TG_DIRICHLET_FORMULAIC_QMAJOR_TARGET_V1")

def digest (target : FormulaicTarget) : Checked Text := do
  let bytes ← target.packed
  pure (Text.ofString (Sha256.hexdigest (TARGET_DOMAIN ++ bytes)))

end FormulaicTarget

def CHAIN_DOMAIN : Bytes := Text.utf8 (Text.ofString "TG_DIRICHLET_FORMULAIC_QMAJOR_CHAIN_V1")

/-! ## What may be offered -/

/-- The argument of `accept`. A mapping is its list of members. -/
inductive Offer where
  | mapping (members : List (String × PyValue))
  | target (t : FormulaicTarget)
  | other

def TARGET_FIELDS : List String := [
  "execution_q_index", "q", "lane_index", "first_t_index", "t_index_stop_exclusive",
  "batch_count", "target_sha256"]

/-- `target.get(key)`; `None` is no integer and no string. -/
def getField (members : List (String × PyValue)) (key : String) : PyValue :=
  (members.lookup key).getD .other

/-- The target a mapping describes. -/
def readMapping (members : List (String × PyValue)) : Checked FormulaicTarget := do
  refuseIf (¬ (members.map Prod.fst ⊆ TARGET_FIELDS ∧ TARGET_FIELDS ⊆ members.map Prod.fst))
    (.failed "formulaic target mapping fields differ")
  let executionQIndex ← integer (getField members "execution_q_index") "target execution q index"
    0 INTEGER_MAXIMUM
  let q ← integer (getField members "q") "target q" 0 INTEGER_MAXIMUM
  let laneIndex ← integer (getField members "lane_index") "target lane index" 0 INTEGER_MAXIMUM
  let firstT ← integer (getField members "first_t_index") "target first t" 0 INTEGER_MAXIMUM
  let stopT ← integer (getField members "t_index_stop_exclusive") "target t stop" 0 INTEGER_MAXIMUM
  let observed : FormulaicTarget := ⟨executionQIndex, q, laneIndex, firstT, stopT⟩
  refuseIf ((getField members "batch_count").eqInt observed.batchCount = false)
    (.failed "formulaic target mapping digest or batch count differs")
  let digest ← observed.digest
  refuseIf ((getField members "target_sha256").eqStr digest = false)
    (.failed "formulaic target mapping digest or batch count differs")
  pure observed

/-- The target an offer stands for. -/
def Offer.observed : Offer → Checked FormulaicTarget
  | .mapping members => readMapping members
  | .target t => .ok t
  | .other => .error (.failed "formulaic target has the wrong type")

/-! ## The cursor -/

/-- Where a cursor stands. -/
structure Position where
  qIndex : Nat
  laneIndex : Nat
  nextT : Int
  deriving DecidableEq, Repr

structure FormulaicQMajorCursor where
  schedule : ParsedScheduleManifest
  accounting : FormulaicAccounting
  lanes : List LaneRange
  startQIndex : Int
  stopQIndex : Int
  maximumBatchCount : Int
  position : Position
  targetCount : Int
  rowReferenceCount : Int
  perLane : LaneTotals
  /-- The source keeps its hexadecimal text. -/
  targetChain : Bytes
  finished : Bool

/-- The inner loop of `_advance_empty_lanes_or_q` over `lanes[lane_index:]`. -/
def skipLanes (rowStop : Int) : List LaneRange → Nat → Int → Nat × Int
  | [], laneIndex, nextT => (laneIndex, nextT)
  | lane :: rest, laneIndex, nextT =>
      if nextT ≥ min rowStop lane.tIndexStopExclusive then
        match rest with
        | [] => (laneIndex + 1, nextT)
        | next :: later => skipLanes rowStop (next :: later) (laneIndex + 1) next.firstTIndex
      else (laneIndex, nextT)

/-- The outer loop of `_advance_empty_lanes_or_q` over `execution_records[q_index:stop]`. -/
def skipRecords (lanes : List LaneRange) : List ScheduleRecord → Position → Position
  | [], position => position
  | record :: rest, position =>
      let (laneIndex, nextT) := skipLanes record.tIndexCount (lanes.drop position.laneIndex)
        position.laneIndex position.nextT
      if nextT < record.tIndexCount then ⟨position.qIndex, laneIndex, nextT⟩
      else skipRecords lanes rest ⟨position.qIndex + 1, 0, 0⟩

/-- The result of `finish`. -/
structure FormulaicSession where
  planSha256 : Bytes
  accountingSha256 : Bytes
  startExecutionQIndex : Int
  stopExecutionQIndex : Int
  targetCount : Int
  rowReferenceCount : Int
  perLane : LaneTotals
  targetChain : Bytes
  sessionSha256 : Bytes

def SESSION_SCHEMA : Text :=
  Text.ofString "sparkinterval.tg.dirichlet_formulaic_qmajor.session.v1"

/-- The body that is hashed. -/
def FormulaicSession.body (session : FormulaicSession) : Json := .object [
  ("schema", .str SESSION_SCHEMA),
  ("schema_version", .int 1),
  ("author", .str AUTHOR),
  ("atom_id", .str ATOM_ID),
  ("algorithm_id", .str ALGORITHM_ID),
  ("plan_sha256", .str (Text.ofString session.planSha256.hex)),
  ("accounting_sha256", .str (Text.ofString session.accountingSha256.hex)),
  ("start_execution_q_index", .int session.startExecutionQIndex),
  ("stop_execution_q_index", .int session.stopExecutionQIndex),
  ("target_count", .int session.targetCount),
  ("row_reference_count", .int session.rowReferenceCount),
  ("per_lane_target_counts", .arr (session.perLane.targetCounts.map .int)),
  ("per_lane_row_reference_counts", .arr (session.perLane.rowCounts.map .int)),
  ("target_chain_sha256", .str (Text.ofString session.targetChain.hex)),
  ("decisions", .object [
    ("exact_formulaic_q_t_coverage_consumed", .bool true),
    ("no_serialized_per_target_control_roster", .bool true),
    ("lattice_rows_read_or_validated", .bool false),
    ("cuda_executed", .bool false),
    ("completed_l_zero_state_validated", .bool false),
    ("trusted_execution_attested", .bool false),
    ("external_atom_discharged", .bool false)])]

namespace FormulaicQMajorCursor

/-- `__init__` -/
def init (schedule : ParsedScheduleManifest) (lanes : List LaneRange) (startExecutionQIndex : Int)
    (stopExecutionQIndex : Option Int) (maximumBatchCount : Int) :
    Checked FormulaicQMajorCursor := do
  let accounting ←
    formulaicAccounting schedule lanes startExecutionQIndex stopExecutionQIndex maximumBatchCount
  pure
    { schedule := schedule
      accounting := accounting
      lanes := accounting.plan.lanes
      startQIndex := accounting.plan.startExecutionQIndex
      stopQIndex := accounting.plan.stopExecutionQIndex
      maximumBatchCount := maximumBatchCount
      position := ⟨accounting.plan.startExecutionQIndex.toNat, 0, 0⟩
      targetCount := 0
      rowReferenceCount := 0
      perLane := LaneTotals.zero accounting.plan.lanes
      targetChain := Sha256.digest (CHAIN_DOMAIN ++ accounting.plan.planSha256)
      finished := false }

/-- `execution_records[q_index:stop_q_index]` -/
def pending (c : FormulaicQMajorCursor) : List ScheduleRecord :=
  c.schedule.slice c.position.qIndex c.stopQIndex

/-- `_advance_empty_lanes_or_q` -/
def advanceEmptyLanesOrQ (c : FormulaicQMajorCursor) : FormulaicQMajorCursor :=
  { c with position := skipRecords c.lanes c.pending c.position }

/-- The target at the position itself. -/
def targetAt (c : FormulaicQMajorCursor) : Checked (Option FormulaicTarget) :=
  if (c.position.qIndex : Int) = c.stopQIndex then .ok none
  else
    match c.lanes[c.position.laneIndex]? with
    | none => .error (.failed "formulaic lane cursor escaped its exact partition")
    | some lane =>
        match c.schedule.executionRecords[c.position.qIndex]? with
        | none => .error .index
        | some record =>
            let stop := min (min record.tIndexCount lane.tIndexStopExclusive)
              (c.position.nextT + c.maximumBatchCount)
            if ¬ c.position.nextT < stop then
              .error (.failed "formulaic cursor generated an empty target")
            else .ok (some ⟨c.position.qIndex, record.q, lane.laneIndex, c.position.nextT, stop⟩)

/-- The cursor may have moved on also where the request fails. -/
def expectedTarget (c : FormulaicQMajorCursor) :
    FormulaicQMajorCursor × Checked (Option FormulaicTarget) :=
  if c.finished then (c, .error (.failed "formulaic cursor is already finalized"))
  else (c.advanceEmptyLanesOrQ, c.advanceEmptyLanesOrQ.targetAt)

/-- The update of an accepted target. -/
def record (c : FormulaicQMajorCursor) (expected : FormulaicTarget) (packed : Bytes) :
    FormulaicQMajorCursor :=
  { c with
    targetChain := Sha256.digest (CHAIN_DOMAIN ++ c.targetChain ++ packed)
    targetCount := c.targetCount + 1
    rowReferenceCount := c.rowReferenceCount + expected.batchCount
    perLane := c.perLane.count expected
    position := { c.position with nextT := expected.tIndexStopExclusive } }

def accept (c : FormulaicQMajorCursor) (offer : Offer) : FormulaicQMajorCursor × Checked Unit :=
  match c.expectedTarget with
  | (c, .error e) => (c, .error e)
  | (c, .ok none) => (c, .error (.failed "formulaic target supplied after exact coverage"))
  | (c, .ok (some expected)) =>
      match offer.observed with
      | .error e => (c, .error e)
      | .ok observed =>
          if observed ≠ expected then
            (c, .error (.failed "formulaic target was skipped, substituted, or reordered"))
          else
            match expected.packed with
            | .error e => (c, .error e)
            | .ok packed => (c.record expected packed, .ok ())

/-- The session a cursor reports. -/
def session (c : FormulaicQMajorCursor) : FormulaicSession where
  planSha256 := c.accounting.plan.planSha256
  accountingSha256 := c.accounting.accountingSha256
  startExecutionQIndex := c.startQIndex
  stopExecutionQIndex := c.stopQIndex
  targetCount := c.targetCount
  rowReferenceCount := c.rowReferenceCount
  perLane := c.perLane
  targetChain := c.targetChain
  sessionSha256 := []

/-- The totals of the cursor are not those of the accounting. -/
def totalsDiffer (c : FormulaicQMajorCursor) : Prop :=
  c.targetCount ≠ c.accounting.targetCount ∨
    c.rowReferenceCount ≠ c.accounting.rowReferenceCount ∨
    c.perLane.targetCounts ≠ c.accounting.perLane.targetCounts ∨
    c.perLane.rowCounts ≠ c.accounting.perLane.rowCounts

instance (c : FormulaicQMajorCursor) : Decidable c.totalsDiffer :=
  inferInstanceAs (Decidable (_ ∨ _ ∨ _ ∨ _))

def finish (c : FormulaicQMajorCursor) : FormulaicQMajorCursor × Checked FormulaicSession :=
  if c.finished then (c, .error (.failed "formulaic cursor was already finalized"))
  else
    match c.expectedTarget with
    | (c, .error e) => (c, .error e)
    | (c, .ok (some _)) => (c, .error (.failed "formulaic cursor is truncated"))
    | (c, .ok none) =>
        if c.totalsDiffer then
          (c, .error (.failed "formulaic cursor totals differ from compressed accounting"))
        else
          match canonicalSha256 c.session.body with
          | .error e => (c, .error e)
          | .ok hash => ({ c with finished := true }, .ok { c.session with sessionSha256 := hash })

/-- **Any use of a cursor**: the targets it has accepted so far, in order, and its state. Calls
that fail are part of a history. -/
inductive History (initial : FormulaicQMajorCursor) :
    List FormulaicTarget → FormulaicQMajorCursor → Prop
  | start : History initial [] initial
  | asked {accepted c} : History initial accepted c → History initial accepted c.expectedTarget.1
  | accepted {accepted c c' offer target} : History initial accepted c →
      offer.observed = .ok target → c.accept offer = (c', .ok ()) →
      History initial (accepted ++ [target]) c'
  | refused {accepted c c' offer e} : History initial accepted c →
      c.accept offer = (c', .error e) → History initial accepted c'
  | finished {accepted c} : History initial accepted c → History initial accepted c.finish.1

/-- The targets that come of asking for the next one and accepting it, until there is none. -/
inductive Yields : FormulaicQMajorCursor → List FormulaicTarget → Prop
  | done {c} : c.expectedTarget.2 = .ok none → Yields c []
  | next {c c₁ c₂ target rest} : c.expectedTarget = (c₁, .ok (some target)) →
      c₁.accept (.target target) = (c₂, .ok ()) → Yields c₂ rest → Yields c (target :: rest)

end FormulaicQMajorCursor

end AttestedCompute.Dirichlet.Formulaic
