import AttestedCompute.Platt.Schedule

/-!
# Unit receipts

A unit's receipt states the zero counts at its two ends and the digest of its block records.
Its identity, `unit_sha256`, covers those and the geometry but not how the unit was run. A
receipt that `buildUnitReceipt` makes is one that `validateUnitReceipt` accepts.

Files hold what was written to them: reading back the JSON text of a receipt gives the receipt.
-/

namespace AttestedCompute.Platt

open Fallible

/-! ## Block records -/

/-- The record of one logical block; the counts are numerals of the runner's transcript. -/
structure Record where
  block : Int
  heightLower : Int
  heightUpper : Int
  countLower : Nat
  countUpper : Nat
  zeroCount : Nat
  deriving DecidableEq, Repr

def Record.toJson (record : Record) : Json := .object [
  ("block", .int record.block),
  ("height_lower", .int record.heightLower),
  ("height_upper", .int record.heightUpper),
  ("count_lower", .int record.countLower),
  ("count_upper", .int record.countUpper),
  ("zero_count", .int record.zeroCount)]

/-- The loop of `_validate_records` from one record on. -/
def validateRecordsFrom (block : Int) (previous : Option Nat) : List Record → Checked Unit
  | [] => pure ()
  | record :: rest => do
      raiseIf (record.block ≠ block) "committed record grid is not contiguous"
      raiseIf (∃ count ∈ previous, record.countLower ≠ count)
        "committed Turing counts are not contiguous"
      validateRecordsFrom (block + 1) (some record.countUpper) rest

/-- `_validate_records` -/
def validateRecords (records : List Record) (firstBlock : Int) : Checked Unit :=
  validateRecordsFrom firstBlock none records

/-- `hashlib.sha256(_canonical(records)).hexdigest()` -/
def recordsDigest (records : List Record) : Checked Text := do
  let bytes ← canonical (.arr (records.map Record.toJson))
  pure (sha256Hex bytes)

/-! ## Receipts -/

/-- How a part of a unit was run. -/
structure Segment where
  firstBlock : Int
  blockCount : Int
  stdoutSha256 : Text
  elapsedSeconds : Rat
  terminatedByPreemption : Bool
  deriving DecidableEq

structure UnitReceipt where
  schema : Text
  scheduleSha256 : Text
  unitIndex : Int
  shardIndex : Int
  firstBlock : Int
  upperBlockExclusive : Int
  blockCount : Int
  heightLower : Int
  heightUpper : Int
  firstCount : Int
  lastCount : Int
  totalZeroCount : Int
  recordsSha256 : Text
  runnerSha256 : Text
  reviewedSourceSha256 : Text
  precisionBits : Int
  step : Int
  allBlocksProvedComplete : Bool
  executionAttested : Bool
  leanAtomDischarged : Bool
  accepted : Bool
  unitSha256 : Text
  segments : List Segment
  deriving DecidableEq

def UNIT_SCHEMA : Text := Text.ofString "sparkinterval.tg.platt-pt21-windowed-unit.v1"

/-- The object that `unit_semantic_digest` hashes. -/
def unitSemantic (schedule : Schedule) (unit first upper firstCount lastCount totalZeroCount : Int)
    (recordsSha256 : Text) : Json := .object [
  ("schedule_sha256", .str schedule.scheduleSha256),
  ("unit_index", .int unit),
  ("first_block", .int first),
  ("upper_block_exclusive", .int upper),
  ("block_count", .int (upper - first)),
  ("height_lower", .int (heightOfBlock first)),
  ("height_upper", .int (heightOfBlock upper)),
  ("first_count", .int firstCount),
  ("last_count", .int lastCount),
  ("total_zero_count", .int totalZeroCount),
  ("records_sha256", .str recordsSha256),
  ("runner_sha256", .str schedule.runnerSha256),
  ("reviewed_source_sha256", .str SOURCE_SET_SHA256),
  ("precision_bits", .int PRECISION_BITS),
  ("step", .int STEP)]

def unitSemanticDigest (schedule : Schedule) (unit firstCount lastCount totalZeroCount : Int)
    (recordsSha256 : Text) : Checked Text := do
  let (first, upper) ← schedule.unitBlockRange unit
  digest UNIT_DOMAIN
    (unitSemantic schedule unit first upper firstCount lastCount totalZeroCount recordsSha256)

/-- The first count and the last count of the records of a unit. -/
def endCounts (records : List Record) : Checked (Int × Int) :=
  match records.head?, records.getLast? with
  | some first, some last => .ok (first.countLower, last.countUpper)
  | _, _ => .error .index

/-- `sum(record["zero_count"] for record in records)` -/
def totalZeroCount (records : List Record) : Int := (records.map fun r => (r.zeroCount : Int)).sum

/-- `_build_unit_receipt` -/
def buildUnitReceipt (schedule : Schedule) (unit : Int) (records : List Record)
    (segments : List Segment) : Checked UnitReceipt := do
  let (first, upper) ← schedule.unitBlockRange unit
  raiseIf ((records.length : Int) ≠ upper - first) "unit record count differs from its geometry"
  validateRecords records first
  let recordsSha256 ← recordsDigest records
  let total := totalZeroCount records
  let (firstCount, lastCount) ← endCounts records
  raiseIf (lastCount - firstCount ≠ total) "unit count chain does not telescope"
  let unitSha256 ← unitSemanticDigest schedule unit firstCount lastCount total recordsSha256
  pure
    { schema := UNIT_SCHEMA
      scheduleSha256 := schedule.scheduleSha256
      unitIndex := unit
      shardIndex := schedule.shardOfUnit unit
      firstBlock := first
      upperBlockExclusive := upper
      blockCount := upper - first
      heightLower := heightOfBlock first
      heightUpper := heightOfBlock upper
      firstCount := firstCount
      lastCount := lastCount
      totalZeroCount := total
      recordsSha256 := recordsSha256
      runnerSha256 := schedule.runnerSha256
      reviewedSourceSha256 := SOURCE_SET_SHA256
      precisionBits := PRECISION_BITS
      step := STEP
      allBlocksProvedComplete := true
      executionAttested := false
      leanAtomDischarged := false
      accepted := true
      unitSha256 := unitSha256
      segments := segments }

/-- The fixed fields of `validate_unit_receipt`. -/
def UnitReceipt.FixedFields (receipt : UnitReceipt) (schedule : Schedule)
    (unit first upper : Int) : Prop :=
  receipt.accepted = true ∧ receipt.allBlocksProvedComplete = true ∧
    receipt.executionAttested = false ∧ receipt.leanAtomDischarged = false ∧
    receipt.scheduleSha256 = schedule.scheduleSha256 ∧ receipt.precisionBits = PRECISION_BITS ∧
    receipt.reviewedSourceSha256 = SOURCE_SET_SHA256 ∧
    receipt.runnerSha256 = schedule.runnerSha256 ∧ receipt.unitIndex = unit ∧
    receipt.shardIndex = schedule.shardOfUnit unit ∧ receipt.step = STEP ∧
    receipt.firstBlock = first ∧ receipt.upperBlockExclusive = upper ∧
    receipt.blockCount = upper - first ∧ receipt.heightLower = heightOfBlock first ∧
    receipt.heightUpper = heightOfBlock upper

instance (receipt : UnitReceipt) (schedule : Schedule) (unit first upper : Int) :
    Decidable (receipt.FixedFields schedule unit first upper) := by
  unfold UnitReceipt.FixedFields
  infer_instance

def validateUnitReceipt (receipt : UnitReceipt) (schedule : Schedule) (unit : Int) :
    Checked Unit := do
  let (first, upper) ← schedule.unitBlockRange unit
  raiseIf (receipt.schema ≠ UNIT_SCHEMA) "unit receipt shape changed"
  raiseIf (¬ receipt.FixedFields schedule unit first upper) "unit receipt fixed fields differ"
  raiseIf (receipt.firstCount < 0) "unit receipt field is malformed: first_count"
  raiseIf (receipt.lastCount < 0) "unit receipt field is malformed: last_count"
  raiseIf (receipt.totalZeroCount < 0) "unit receipt field is malformed: total_zero_count"
  raiseIf (receipt.lastCount - receipt.firstCount ≠ receipt.totalZeroCount)
    "unit receipt count does not telescope"
  raiseIf (isHex64 receipt.recordsSha256 = false) "malformed unit digest: records_sha256"
  raiseIf (isHex64 receipt.unitSha256 = false) "malformed unit digest: unit_sha256"
  let expected ← unitSemanticDigest schedule unit receipt.firstCount receipt.lastCount
    receipt.totalZeroCount receipt.recordsSha256
  raiseIf (receipt.unitSha256 ≠ expected) "unit receipt digest differs"

theorem unitSemanticDigest_isHex64 {schedule : Schedule} {unit firstCount lastCount total : Int}
    {recordsSha256 hash : Text}
    (h : unitSemanticDigest schedule unit firstCount lastCount total recordsSha256 = .ok hash) :
    isHex64 hash = true := by
  simp only [unitSemanticDigest, digest, bind_ok, pure_ok] at h
  obtain ⟨_, _, bytes, _, rfl⟩ := h
  exact isHex64_sha256Hex _

theorem totalZeroCount_nonneg (records : List Record) : 0 ≤ totalZeroCount records :=
  List.sum_nonneg fun n hn => by
    obtain ⟨record, _, rfl⟩ := List.mem_map.mp hn
    exact Int.natCast_nonneg _

/-- **What is built is accepted.** -/
theorem buildUnitReceipt_valid {schedule : Schedule} {unit : Int} {records : List Record}
    {segments : List Segment} {receipt : UnitReceipt}
    (h : buildUnitReceipt schedule unit records segments = .ok receipt) :
    validateUnitReceipt receipt schedule unit = .ok () := by
  simp only [buildUnitReceipt, bind_ok, raiseIf_ok, pure_ok, Prod.exists] at h
  obtain ⟨first, upper, hrange, _, _, _, _, recordsSha256, hrecords, firstCount, lastCount, hends,
    _, htelescope, unitSha256, hunit, rfl⟩ := h
  have hrecordsHex : isHex64 recordsSha256 = true := by
    simp only [recordsDigest, bind_ok, pure_ok] at hrecords
    obtain ⟨bytes, _, rfl⟩ := hrecords
    exact isHex64_sha256Hex bytes
  have hcounts : 0 ≤ firstCount ∧ 0 ≤ lastCount := by
    unfold endCounts at hends
    split at hends
    · cases hends
      exact ⟨Int.natCast_nonneg _, Int.natCast_nonneg _⟩
    · cases hends
  simp only [validateUnitReceipt, bind_ok, raiseIf_ok, Prod.exists]
  exact ⟨first, upper, hrange, (), not_not.mpr rfl, (),
    not_not.mpr ⟨rfl, rfl, rfl, rfl, rfl, rfl, rfl, rfl, rfl, rfl, rfl, rfl, rfl, rfl, rfl, rfl⟩,
    (), not_lt.mpr hcounts.1, (), not_lt.mpr hcounts.2, (),
    not_lt.mpr (totalZeroCount_nonneg records), (), htelescope, (), by rw [hrecordsHex]; decide, (),
    by rw [unitSemanticDigest_isHex64 hunit]; decide, unitSha256, hunit, not_not.mpr rfl⟩

/-! ## A schedule of one block -/

def oneBlockParameters : ScheduleParameters where
  runnerSha256 := List.replicate 64 0x30
  runnerSize := 1
  sourceManifestSha256 := List.replicate 64 0x30
  sourceManifestSize := 1
  blocksPerUnit := 1
  unitsPerShard := 1
  blockCount := 1
  allowBoundedTest := true

theorem oneBlockParameters_prints : Json.fits oneBlockParameters.body = true := by
  have hword : ∀ n : Int, n.natAbs < 2 ^ 64 → Json.fits (.int n) = true := fun _ =>
    Json.fits_int_of_word
  simp only [ScheduleParameters.body, Json.fits_object, List.mem_cons, List.not_mem_nil, or_false,
    forall_eq_or_imp, forall_eq]
  refine ⟨rfl, rfl, ⟨rfl, rfl, rfl, ?_, rfl, rfl⟩, ⟨rfl, ?_⟩, ⟨?_, ?_, ?_, ?_, ?_, rfl⟩,
    ⟨?_, ?_, ?_, ?_⟩, ⟨?_, ?_, ?_, ?_⟩, rfl⟩
  all_goals exact hword _ (by decide)

def oneBlock : Schedule where
  toScheduleParameters := oneBlockParameters
  scheduleSha256 := (digest SCHEDULE_DOMAIN oneBlockParameters.body).toOption.getD []
  checked := rfl
  digested := by
    obtain ⟨hash, hhash⟩ := digest_isOk.mpr oneBlockParameters_prints
    rw [hhash]
    rfl

/-- A record of the one block, with three zeros above a count. -/
def oneBlockRecord (count : Nat) : Record :=
  ⟨0, 10000000000, 10000001008, count, count + 3, 3⟩

/-- What the digest of its records is taken of. -/
def oneBlockRecordBytes (count : Nat) : Bytes :=
  (Json.dumpsAscii (.arr [(oneBlockRecord count).toJson])).utf8

/-- What the digest of its unit is taken of. -/
def oneBlockUnitBytes (count : Nat) : Bytes :=
  UNIT_DOMAIN ++ (Json.dumpsAscii (unitSemantic oneBlock 0 0 1 count ((count + 3 : Nat) : Int) 3
    (sha256Hex (oneBlockRecordBytes count)))).utf8

theorem canonical_of_fits {value : Json} (h : Json.fits value = true) :
    canonical value = .ok (Json.dumpsAscii value).utf8 := by
  simp [canonical, Json.asciiBytes, h]

/-- The one unit gets its receipt, whatever its counts are. -/
theorem oneBlock_built {count : Nat} (hcount : count < 2 ^ 32) (segments : List Segment) :
    ∃ receipt, buildUnitReceipt oneBlock 0 [oneBlockRecord count] segments = .ok receipt ∧
      receipt.firstCount = count ∧ receipt.lastCount = count + 3 ∧ receipt.totalZeroCount = 3 ∧
      receipt.unitSha256 = sha256Hex (oneBlockUnitBytes count) := by
  have hword : ∀ n : Int, n.natAbs < 2 ^ 64 → Json.fits (.int n) = true := fun _ =>
    Json.fits_int_of_word
  have hrecord : canonical (.arr ([oneBlockRecord count].map Record.toJson)) =
      .ok (oneBlockRecordBytes count) := by
    refine canonical_of_fits ?_
    rw [Json.fits_arr]
    simp only [List.map_cons, List.map_nil, forall_eq, Record.toJson, Json.fits_object,
      List.mem_cons, List.not_mem_nil, or_false, forall_eq_or_imp, oneBlockRecord]
    refine ⟨?_, ?_, ?_, ?_, ?_, ?_⟩
    all_goals exact hword _ (by omega)
  have hunit : unitSemanticDigest oneBlock 0 count ((count + 3 : Nat) : Int) 3
      (sha256Hex (oneBlockRecordBytes count)) = .ok (sha256Hex (oneBlockUnitBytes count)) := by
    have hrange : oneBlock.unitBlockRange 0 = .ok (0, 1) := rfl
    have hprints : Json.fits (unitSemantic oneBlock 0 0 1 count ((count + 3 : Nat) : Int) 3
        (sha256Hex (oneBlockRecordBytes count))) = true := by
      simp only [unitSemantic, Json.fits_object, List.mem_cons, List.not_mem_nil, or_false,
        forall_eq_or_imp, forall_eq]
      refine ⟨rfl, ?_, ?_, ?_, ?_, ?_, ?_, ?_, ?_, ?_, rfl, rfl, rfl, ?_, ?_⟩
      all_goals first | exact hword _ (by decide) | exact hword _ (by omega)
    simp only [unitSemanticDigest, digest, bind_ok, pure_ok, Prod.exists]
    exact ⟨0, 1, hrange, _, canonical_of_fits hprints, rfl⟩
  have htotal : totalZeroCount [oneBlockRecord count] = 3 := rfl
  -- the digests are not to be evaluated
  generalize sha256Hex (oneBlockUnitBytes count) = unitSha256 at hunit ⊢
  generalize oneBlockRecordBytes count = recordBytes at hrecord hunit
  simp only [buildUnitReceipt, recordsDigest, bind_ok, raiseIf_ok, pure_ok, Prod.exists]
  refine ⟨_, ⟨0, 1, rfl, (), not_not.mpr rfl, (), rfl, sha256Hex recordBytes,
    ⟨recordBytes, hrecord, rfl⟩, count, ((count + 3 : Nat) : Int), rfl, (), ?_, unitSha256,
    hunit, rfl⟩, rfl, rfl, htotal, rfl⟩
  rw [htotal]
  omega

end AttestedCompute.Platt
