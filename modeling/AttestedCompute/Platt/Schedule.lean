import AttestedCompute.Lib.Fallible
import AttestedCompute.Lib.JsonAscii
import AttestedCompute.Lib.Sha256

/-!
# Platt schedules

The immutable geometry of `tg_verifier/platt_windowed_scheduler.py`: logical blocks of height
`STEP` from `SOURCE_LOWER` on, units of consecutive blocks, shards of consecutive units. A
schedule is its parameters; that they pass the checks of `create_schedule` is a field, so every
schedule at hand is one that `load_schedule` accepts.
-/

namespace AttestedCompute.Platt

open Fallible

/-- The exceptions of a scheduler call. -/
inductive PlattError where
  /-- `PlattWindowedScheduleError` -/
  | schedule (message : String)
  /-- `PlattWindowedPreempted` -/
  | preempted (message : String)
  /-- `PlattWindowedCampaignError` -/
  | campaign (message : String)
  /-- `IndexError` -/
  | index
  /-- `ValueError` of `int` -/
  | value
  /-- An exception of the JSON codec. -/
  | json (fault : Json.Fault)
  deriving DecidableEq, Repr

abbrev Checked := Except PlattError

/-- `if condition: raise PlattWindowedScheduleError(message)` -/
def raiseIf (condition : Prop) [Decidable condition] (message : String) : Checked Unit :=
  refuseIf condition (.schedule message)

@[simp] theorem raiseIf_ok {condition : Prop} [Decidable condition] {message : String} {u : Unit} :
    raiseIf condition message = .ok u ↔ ¬ condition := refuseIf_ok

/-! ## Constants -/

def SOURCE_COMMIT : Text := Text.ofString "42b21426718e542daa2b006dc05ea2d7f26426e6"

def SOURCE_SET_SHA256 : Text :=
  Text.ofString "9a748490b327b102d53506e390a42afac796a5b42b42060fe82aa8f5744bb152"

def SOURCE_LOWER : Int := 10000000000

def SOURCE_LOWER_COUNT : Int := 32130158315

def SOURCE_HEIGHT : Int := 3000175332800

def SOURCE_COUNT : Int := 12363153437138

def SOURCE_MAXIMUM : Int := 3010000000000

def STEP : Int := 1008

def PRECISION_BITS : Int := 128

def FULL_BLOCK_COUNT : Int := (SOURCE_HEIGHT - SOURCE_LOWER + STEP - 1) / STEP

def MAX_BLOCKS_PER_UNIT : Int := 2 ^ 20

def MAX_UNITS_PER_SHARD : Int := 2 ^ 20

/-! ## Digests -/

/-- `_HEX64.fullmatch` -/
def isHex64 (t : Text) : Bool :=
  t.length = 64 && t.all fun c =>
    (0x30 ≤ c.val && c.val ≤ 0x39) || (0x61 ≤ c.val && c.val ≤ 0x66)

/-- `_canonical`, which prints ASCII. -/
def canonical (value : Json) : Checked Bytes :=
  match Json.asciiBytes value with
  | .ok bytes => .ok bytes
  | .error fault => .error (.json fault)

/-- `hashlib.sha256(...).hexdigest()` -/
def sha256Hex (bytes : Bytes) : Text := Text.ofString (Sha256.hexdigest bytes)

/-- `_digest` -/
def digest (domain : Bytes) (value : Json) : Checked Text := do
  let bytes ← canonical value
  pure (sha256Hex (domain ++ bytes))

/-- A domain string with its closing zero byte. -/
def domain (name : String) : Bytes := Text.utf8 (Text.ofString name) ++ [0]

def SCHEDULE_DOMAIN : Bytes := domain "sparkinterval/tg/platt-pt21-windowed-schedule/v1"

def UNIT_DOMAIN : Bytes := domain "sparkinterval/tg/platt-pt21-windowed-unit/v1"

def SHARD_DOMAIN : Bytes := domain "sparkinterval/tg/platt-pt21-windowed-shard-seal/v1"

theorem canonical_isOk {value : Json} :
    (∃ bytes, canonical value = .ok bytes) ↔ Json.fits value = true := by
  rw [← Json.asciiBytes_isOk]
  unfold canonical
  cases hbytes : Json.asciiBytes value with
  | ok bytes => simp
  | error fault => simp

theorem digest_isOk {dom : Bytes} {value : Json} :
    (∃ hash, digest dom value = .ok hash) ↔ Json.fits value = true := by
  rw [← canonical_isOk]
  simp only [digest, bind_ok, pure_ok]
  constructor
  · rintro ⟨hash, bytes, hbytes, _⟩
    exact ⟨bytes, hbytes⟩
  · rintro ⟨bytes, hbytes⟩
    exact ⟨_, bytes, hbytes, rfl⟩

theorem isHex64_iff {t : Text} : isHex64 t = true ↔ t.length = 64 ∧ ∀ c ∈ t, Text.IsHex c := by
  simp only [isHex64, Bool.and_eq_true, List.all_eq_true, Bool.or_eq_true, decide_eq_true_eq]
  rfl

theorem isHex64_sha256Hex (bytes : Bytes) : isHex64 (sha256Hex bytes) = true := by
  have hlength : (sha256Hex bytes).length = 64 := by
    rw [sha256Hex, Sha256.hexdigest, Text.length_ofString_hex, Sha256.length_digest]
  exact isHex64_iff.mpr ⟨hlength, fun c hc => Text.isHex_of_mem_hex hc⟩

theorem encodable_of_isHex64 {t : Text} (h : isHex64 t = true) : t.Encodable :=
  Text.encodable_of_isHex (isHex64_iff.mp h).2

/-! ## Schedules -/

/-- The arguments of `create_schedule`. -/
structure ScheduleParameters where
  runnerSha256 : Text
  runnerSize : Int
  sourceManifestSha256 : Text
  sourceManifestSize : Int
  blocksPerUnit : Int
  unitsPerShard : Int
  blockCount : Int
  allowBoundedTest : Bool
  deriving DecidableEq

namespace ScheduleParameters

def coverageUpper (p : ScheduleParameters) : Int := SOURCE_LOWER + p.blockCount * STEP

def unitCount (p : ScheduleParameters) : Int :=
  (p.blockCount + p.blocksPerUnit - 1) / p.blocksPerUnit

def shardCount (p : ScheduleParameters) : Int :=
  (p.unitCount + p.unitsPerShard - 1) / p.unitsPerShard

/-- The refusals of `create_schedule`, in order. -/
def check (p : ScheduleParameters) : Checked Unit := do
  raiseIf (isHex64 p.runnerSha256 = false ∨ isHex64 p.sourceManifestSha256 = false)
    "a pinned digest is malformed"
  raiseIf (p.runnerSize < 1 ∨ p.sourceManifestSize < 1)
    "runner and source manifest must be nonempty"
  raiseIf (¬ (1 ≤ p.blocksPerUnit ∧ p.blocksPerUnit ≤ MAX_BLOCKS_PER_UNIT))
    "blocks_per_unit is outside the permitted range"
  raiseIf (¬ (1 ≤ p.unitsPerShard ∧ p.unitsPerShard ≤ MAX_UNITS_PER_SHARD))
    "units_per_shard is outside the permitted range"
  raiseIf (p.blockCount < 1) "block_count must be positive"
  raiseIf (p.blockCount ≠ FULL_BLOCK_COUNT ∧ p.allowBoundedTest = false)
    "bounded geometry requires allow_bounded_test"
  raiseIf (p.coverageUpper > SOURCE_MAXIMUM) "schedule exceeds the source parameter maximum"

/-- The schedule without its digest. -/
def body (p : ScheduleParameters) : Json := .object [
  ("schema", .str (Text.ofString "sparkinterval.tg.platt-pt21-windowed-schedule.v1")),
  ("mode", .str (Text.ofString
    (if p.blockCount = FULL_BLOCK_COUNT then "full_source_high_range" else "bounded_test"))),
  ("source", .object [
    ("repository_commit", .str SOURCE_COMMIT),
    ("reviewed_source_sha256", .str SOURCE_SET_SHA256),
    ("manifest_sha256", .str p.sourceManifestSha256),
    ("manifest_size_bytes", .int p.sourceManifestSize),
    ("license", .str (Text.ofString "NOASSERTION")),
    ("redistribution", .str (Text.ofString "not-authorized-by-this-manifest"))]),
  ("runner", .object [
    ("sha256", .str p.runnerSha256),
    ("size_bytes", .int p.runnerSize)]),
  ("claim", .object [
    ("source_height", .int SOURCE_HEIGHT),
    ("source_multiplicity_count", .int SOURCE_COUNT),
    ("windowed_lower", .int SOURCE_LOWER),
    ("windowed_lower_multiplicity_count", .int SOURCE_LOWER_COUNT),
    ("coverage_upper", .int p.coverageUpper),
    ("lower_prefix_required", .bool true)]),
  ("configuration", .object [
    ("precision_bits", .int PRECISION_BITS),
    ("step", .int STEP),
    ("blocks_per_unit", .int p.blocksPerUnit),
    ("units_per_shard", .int p.unitsPerShard)]),
  ("geometry", .object [
    ("block_count", .int p.blockCount),
    ("unit_count", .int p.unitCount),
    ("shard_count", .int p.shardCount),
    ("blocks_per_shard", .int (p.blocksPerUnit * p.unitsPerShard))]),
  ("allow_bounded_test", .bool p.allowBoundedTest)]

end ScheduleParameters

/-- A schedule: parameters that pass the checks, with the digest of the schedule. -/
structure Schedule extends ScheduleParameters where
  scheduleSha256 : Text
  checked : toScheduleParameters.check = .ok ()
  digested : digest SCHEDULE_DOMAIN toScheduleParameters.body = .ok scheduleSha256

def createSchedule (p : ScheduleParameters) : Checked Schedule :=
  match hcheck : p.check with
  | .error e => .error e
  | .ok () =>
      match hdigest : digest SCHEDULE_DOMAIN p.body with
      | .error e => .error e
      | .ok hash => .ok ⟨p, hash, hcheck, hdigest⟩

namespace Schedule

variable (schedule : Schedule)

theorem blocksPerUnit_pos : 1 ≤ schedule.blocksPerUnit := by
  have h := schedule.checked
  simp only [ScheduleParameters.check, bind_ok, raiseIf_ok] at h
  obtain ⟨_, _, _, _, _, hunit, _⟩ := h
  exact (not_not.mp hunit).1

theorem encodable_scheduleSha256 : schedule.scheduleSha256.Encodable := by
  have h := schedule.digested
  simp only [digest, bind_ok, pure_ok] at h
  obtain ⟨bytes, _, hhash⟩ := h
  rw [← hhash]
  exact Text.encodable_ofString _

theorem encodable_runnerSha256 : schedule.runnerSha256.Encodable := by
  have h := schedule.checked
  simp only [ScheduleParameters.check, bind_ok, raiseIf_ok] at h
  obtain ⟨_, hdigests, _⟩ := h
  push Not at hdigests
  exact encodable_of_isHex64 (by simpa using hdigests.1)

/-- `unit_block_range` -/
def unitBlockRange (unit : Int) : Checked (Int × Int) := do
  raiseIf (unit < 0 ∨ unit ≥ schedule.unitCount) "unit index is outside the fixed schedule"
  let first := unit * schedule.blocksPerUnit
  pure (first, min (first + schedule.blocksPerUnit) schedule.blockCount)

/-- `shard_unit_range` -/
def shardUnitRange (shard : Int) : Checked (Int × Int) := do
  raiseIf (shard < 0 ∨ shard ≥ schedule.shardCount) "shard index is outside the fixed schedule"
  let first := shard * schedule.unitsPerShard
  pure (first, min (first + schedule.unitsPerShard) schedule.unitCount)

/-- `shard_of_unit` -/
def shardOfUnit (unit : Int) : Int := unit / schedule.unitsPerShard

end Schedule

/-- `height_of_block` -/
def heightOfBlock (block : Int) : Int := SOURCE_LOWER + block * STEP

end AttestedCompute.Platt
