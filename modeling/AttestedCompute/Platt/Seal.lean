import AttestedCompute.Lib.MerkleTree
import AttestedCompute.Platt.UnitReceipt

/-!
# Sealing a shard

`seal_shard` reads the receipts of all units of a shard, builds the shard's receipt from them
and only then looks for a receipt that is already there. If there is none it writes the list of
unit digests, then the receipt, and with `prune_units` removes the unit receipts one by one. A
call can be stopped after any of these writes, so what it leaves behind is the effect of a
prefix of them.
-/

namespace AttestedCompute.Platt

open Fallible

/-! ## Merkle roots -/

def MERKLE_LEAF_DOMAIN : Bytes := domain "sparkinterval/tg/platt-pt21-windowed-leaf/v1"

def MERKLE_NODE_DOMAIN : Bytes := domain "sparkinterval/tg/platt-pt21-windowed-node/v1"

/-- `bytes.fromhex` of lowercase digits. -/
def fromHex (t : Text) : Checked Bytes :=
  match Bytes.ofHexChars (t.map Text.toChar) with
  | some bytes => .ok bytes
  | none => .error .value

def merkleNode (left right : Bytes) : Bytes := Sha256.digest (MERKLE_NODE_DOMAIN ++ left ++ right)

/-- `_merkle_root` -/
def merkleRoot (leaves : List Text) : Checked Text := do
  raiseIf (leaves = []) "cannot aggregate an empty receipt set"
  let bytes ← leaves.mapM fromHex
  let level := bytes.map fun leaf => Sha256.digest (MERKLE_LEAF_DOMAIN ++ leaf)
  -- an odd level duplicates its final entry
  match MerkleTree.reduce merkleNode (fun last => merkleNode last last) level.length level with
  | root :: _ => pure (Text.ofString root.hex)
  | [] => .error .index

/-! ## Shard receipts -/

@[ext]
structure ShardReceipt where
  schema : Text
  scheduleSha256 : Text
  shardIndex : Int
  firstUnit : Int
  upperUnitExclusive : Int
  unitCount : Int
  firstBlock : Int
  upperBlockExclusive : Int
  blockCount : Int
  heightLower : Int
  heightUpper : Int
  firstCount : Int
  lastCount : Int
  totalZeroCount : Int
  unitMerkleRootSha256 : Text
  runnerSha256 : Text
  reviewedSourceSha256 : Text
  unitsPruned : Bool
  executionAttested : Bool
  leanAtomDischarged : Bool
  accepted : Bool
  shardSha256 : Text
  deriving DecidableEq

def SHARD_SCHEMA : Text := Text.ofString "sparkinterval.tg.platt-pt21-windowed-shard-seal.v1"

/-- `_shard_semantic` -/
def shardSemantic (shard : ShardReceipt) : Json := .object [
  ("schema", .str shard.schema),
  ("schedule_sha256", .str shard.scheduleSha256),
  ("shard_index", .int shard.shardIndex),
  ("first_unit", .int shard.firstUnit),
  ("upper_unit_exclusive", .int shard.upperUnitExclusive),
  ("unit_count", .int shard.unitCount),
  ("first_block", .int shard.firstBlock),
  ("upper_block_exclusive", .int shard.upperBlockExclusive),
  ("block_count", .int shard.blockCount),
  ("height_lower", .int shard.heightLower),
  ("height_upper", .int shard.heightUpper),
  ("first_count", .int shard.firstCount),
  ("last_count", .int shard.lastCount),
  ("total_zero_count", .int shard.totalZeroCount),
  ("unit_merkle_root_sha256", .str shard.unitMerkleRootSha256),
  ("runner_sha256", .str shard.runnerSha256),
  ("reviewed_source_sha256", .str shard.reviewedSourceSha256),
  ("units_pruned", .bool shard.unitsPruned),
  ("execution_attested", .bool shard.executionAttested),
  ("lean_atom_discharged", .bool shard.leanAtomDischarged),
  ("accepted", .bool shard.accepted)]

/-- The fixed fields of `validate_shard_receipt`. -/
def ShardReceipt.FixedFields (shard : ShardReceipt) (schedule : Schedule)
    (shardIndex firstUnit upperUnit firstBlock upperBlock : Int) : Prop :=
  shard.accepted = true ∧ shard.executionAttested = false ∧ shard.leanAtomDischarged = false ∧
    shard.scheduleSha256 = schedule.scheduleSha256 ∧ shard.shardIndex = shardIndex ∧
    shard.firstUnit = firstUnit ∧ shard.upperUnitExclusive = upperUnit ∧
    shard.unitCount = upperUnit - firstUnit ∧ shard.firstBlock = firstBlock ∧
    shard.upperBlockExclusive = upperBlock ∧ shard.blockCount = upperBlock - firstBlock ∧
    shard.heightLower = heightOfBlock firstBlock ∧ shard.heightUpper = heightOfBlock upperBlock ∧
    shard.runnerSha256 = schedule.runnerSha256 ∧ shard.reviewedSourceSha256 = SOURCE_SET_SHA256

instance (shard : ShardReceipt) (schedule : Schedule)
    (shardIndex firstUnit upperUnit firstBlock upperBlock : Int) :
    Decidable (shard.FixedFields schedule shardIndex firstUnit upperUnit firstBlock upperBlock) := by
  unfold ShardReceipt.FixedFields
  infer_instance

def validateShardReceipt (shard : ShardReceipt) (schedule : Schedule) (shardIndex : Int) :
    Checked Unit := do
  raiseIf (shard.schema ≠ SHARD_SCHEMA) "shard receipt shape changed"
  let (firstUnit, upperUnit) ← schedule.shardUnitRange shardIndex
  let (firstBlock, _) ← schedule.unitBlockRange firstUnit
  let (_, upperBlock) ← schedule.unitBlockRange (upperUnit - 1)
  raiseIf (¬ shard.FixedFields schedule shardIndex firstUnit upperUnit firstBlock upperBlock)
    "shard receipt fixed fields differ"
  raiseIf (shard.lastCount - shard.firstCount ≠ shard.totalZeroCount)
    "shard receipt count does not telescope"
  raiseIf (isHex64 shard.unitMerkleRootSha256 = false)
    "malformed shard digest: unit_merkle_root_sha256"
  raiseIf (isHex64 shard.shardSha256 = false) "malformed shard digest: shard_sha256"
  let expected ← digest SHARD_DOMAIN (shardSemantic shard)
  raiseIf (shard.shardSha256 ≠ expected) "shard receipt digest differs"

/-! ## The files of a shard -/

/-- The unit receipts, the list of unit digests and the receipt of one shard. -/
structure ShardFiles where
  units : Int → Option UnitReceipt
  digestList : Option (List Text)
  receipt : Option ShardReceipt

/-- The writes of `seal_shard`, each of them atomic. -/
inductive Write where
  | digestList (leaves : List Text)
  | receipt (shard : ShardReceipt)
  | unlinkUnit (unit : Int)
  deriving DecidableEq

def applyWrite (files : ShardFiles) : Write → ShardFiles
  | .digestList leaves => { files with digestList := some leaves }
  | .receipt shard => { files with receipt := some shard }
  | .unlinkUnit unit => { files with units := Function.update files.units unit none }

def applyWrites (files : ShardFiles) (writes : List Write) : ShardFiles :=
  writes.foldl applyWrite files

/-- The local variables of the loop over the units. -/
structure Aggregate where
  leaves : List Text
  firstCount : Option Int
  lastCount : Option Int
  total : Int
  previousUpperBlock : Option Int
  deriving DecidableEq

def Aggregate.empty : Aggregate := ⟨[], none, none, 0, none⟩

/-- One iteration of the loop over the units. -/
def aggregateUnit (schedule : Schedule) (units : Int → Option UnitReceipt) (acc : Aggregate)
    (unit : Int) : Checked Aggregate :=
  match units unit with
  | none => .error (.schedule ("missing unit receipt " ++ toString unit))
  | some receipt => do
      validateUnitReceipt receipt schedule unit
      raiseIf (∃ upper ∈ acc.previousUpperBlock, receipt.firstBlock ≠ upper)
        "shard unit grid has a gap"
      raiseIf (acc.previousUpperBlock ≠ none ∧ some receipt.firstCount ≠ acc.lastCount)
        "shard unit count chain breaks"
      pure
        { leaves := acc.leaves ++ [receipt.unitSha256]
          firstCount := some (acc.firstCount.getD receipt.firstCount)
          lastCount := some receipt.lastCount
          total := acc.total + receipt.totalZeroCount
          previousUpperBlock := some receipt.upperBlockExclusive }

/-- `range(first_unit, upper_unit)` -/
def unitRange (firstUnit upperUnit : Int) : List Int :=
  (List.range (upperUnit - firstUnit).toNat).map fun k : Nat => firstUnit + (k : Int)

/-- The receipt of a shard with these units. -/
def buildShard (schedule : Schedule) (shardIndex firstUnit upperUnit : Int) (acc : Aggregate)
    (pruneUnits : Bool) : Checked ShardReceipt :=
  match acc.firstCount, acc.lastCount with
  | some firstCount, some lastCount => do
      raiseIf (lastCount - firstCount ≠ acc.total) "shard count chain does not telescope"
      let (firstBlock, _) ← schedule.unitBlockRange firstUnit
      let (_, upperBlock) ← schedule.unitBlockRange (upperUnit - 1)
      let root ← merkleRoot acc.leaves
      let shard : ShardReceipt :=
        { schema := SHARD_SCHEMA
          scheduleSha256 := schedule.scheduleSha256
          shardIndex := shardIndex
          firstUnit := firstUnit
          upperUnitExclusive := upperUnit
          unitCount := upperUnit - firstUnit
          firstBlock := firstBlock
          upperBlockExclusive := upperBlock
          blockCount := upperBlock - firstBlock
          heightLower := heightOfBlock firstBlock
          heightUpper := heightOfBlock upperBlock
          firstCount := firstCount
          lastCount := lastCount
          totalZeroCount := acc.total
          unitMerkleRootSha256 := root
          runnerSha256 := schedule.runnerSha256
          reviewedSourceSha256 := SOURCE_SET_SHA256
          unitsPruned := pruneUnits
          executionAttested := false
          leanAtomDischarged := false
          accepted := true
          shardSha256 := [] }
      let hash ← digest SHARD_DOMAIN (shardSemantic shard)
      pure { shard with shardSha256 := hash }
  | _, _ => .error (.schedule "shard contains no units")

/-- The writes of a call that finds no receipt. -/
def sealWrites (firstUnit upperUnit : Int) (acc : Aggregate) (shard : ShardReceipt)
    (pruneUnits : Bool) : List Write :=
  .digestList acc.leaves :: .receipt shard ::
    if pruneUnits then (unitRange firstUnit upperUnit).map .unlinkUnit else []

/-- What `seal_shard` returns, and the writes it makes on the way. -/
def sealShard (schedule : Schedule) (files : ShardFiles) (shardIndex : Int) (pruneUnits : Bool) :
    Checked (ShardReceipt × List Write) := do
  let (firstUnit, upperUnit) ← schedule.shardUnitRange shardIndex
  let acc ← (unitRange firstUnit upperUnit).foldlM (aggregateUnit schedule files.units)
    Aggregate.empty
  let shard ← buildShard schedule shardIndex firstUnit upperUnit acc pruneUnits
  match files.receipt with
  | some retained => do
      validateShardReceipt retained schedule shardIndex
      raiseIf (retained.shardSha256 ≠ shard.shardSha256)
        "re-sealing produced a different shard digest"
      pure (retained, [])
  | none => pure (shard, sealWrites firstUnit upperUnit acc shard pruneUnits)

end AttestedCompute.Platt
