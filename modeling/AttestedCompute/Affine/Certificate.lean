import AttestedCompute.Affine.Transition
import AttestedCompute.Lib.Json
import AttestedCompute.Lib.MerkleTree
import AttestedCompute.Lib.Sha256

/-!
# Affine guard certificates

The plan, leaf and verifier half of `tg_verifier/affine_guard_certificate.py`. A plan
cuts an integer domain into consecutive shards; a leaf summarises one shard; the
verifier checks leaves against the plan, derives every shard input by the exclusive
scan, and commits to everything in one certificate root.

Every dataclass validates itself in `__post_init__`. Here the checks are a function
and the structure carries the fact that they passed, so a plan or a leaf that exists
is a valid one.
-/

namespace AttestedCompute.Affine

open Fallible (refuseIf)

/-- The failures of plans, leaves and the verifier. -/
inductive CertificateError where
  | guard (e : AffineGuardCertificateError)
  /-- An exception of the JSON codec, which is not a certificate error. -/
  | json (fault : Json.Fault)
  | belowMinimum (name : String) (minimum : Int)
  | emptyLabel (name : String)
  | controlLabel (name : String)
  | notSha256 (name : String)
  | shardRange
  | shardWorkCount
  | planDomain
  | planNoShards
  | planDuplicateIndex
  | planDuplicateRange
  | planIndexOrder
  | gapBefore (index expected found : Int)
  | overlapBefore (index expected found : Int)
  | gapAfter (expected found : Int)
  | exceedsDomain (endpoint : Int)
  | leafRange
  | leafWorkCount
  | leafWitnessCount
  | witnessOutside (side : String) (coordinate : Nat)
  | witnessNotTight (side : String) (coordinate : Nat) (derived expected : Int)
  | leafOtherPlan
  | leafNotInPlan
  | leafMismatch
  | leafDimension
  | rootDimension
  | duplicateLeaf
  | duplicateRange
  | leafCount (actual required : Nat)
  | leafOrder
  | noTransition
  | rootMismatch
  deriving DecidableEq, Repr

/-- The text of each failure. -/
def CertificateError.message : CertificateError → String
  | guard e => e.message
  | json .longInteger => "Exceeds the limit (4300 digits) for integer string conversion"
  | json .surrogate => "surrogates not allowed"
  | belowMinimum name minimum => name ++ " must be at least " ++ toString minimum
  | emptyLabel name => name ++ " must be a nonempty string"
  | controlLabel name => name ++ " must not contain control characters"
  | notSha256 name => name ++ " must be a lowercase 64-digit SHA-256 hex string"
  | shardRange => "shard range must be a nonempty half-open interval"
  | shardWorkCount => "shard work_count must equal upper - lower"
  | planDomain => "plan domain must be a nonempty half-open interval"
  | planNoShards => "plan must contain at least one shard"
  | planDuplicateIndex => "plan contains a duplicate shard index"
  | planDuplicateRange => "plan contains a duplicate shard range"
  | planIndexOrder => "plan shard indices must be exactly 0, 1, ..., n-1 in order"
  | gapBefore index expected found =>
      "gap before shard " ++ toString index ++ ": expected " ++ toString expected ++ ", found "
        ++ toString found
  | overlapBefore index expected found =>
      "overlap before shard " ++ toString index ++ ": expected " ++ toString expected ++ ", found "
        ++ toString found
  | gapAfter expected found =>
      "gap after final shard: expected endpoint " ++ toString expected ++ ", found "
        ++ toString found
  | exceedsDomain endpoint => "final shard exceeds plan domain endpoint " ++ toString endpoint
  | leafRange => "leaf range must be a nonempty half-open interval"
  | leafWorkCount => "leaf work_count must equal upper - lower"
  | leafWitnessCount => "each transition coordinate needs one lower and one upper tight witness"
  | witnessOutside side coordinate =>
      side ++ " witness " ++ toString coordinate ++ " lies outside the shard range"
  | witnessNotTight side coordinate derived expected =>
      side ++ " witness " ++ toString coordinate ++ " is not tight: derived " ++ toString derived
        ++ ", expected " ++ toString expected
  | leafOtherPlan => "leaf is bound to a different plan SHA"
  | leafNotInPlan => "leaf shard index is not in the plan"
  | leafMismatch => "leaf index, bounds, or work_count do not match the fixed plan"
  | leafDimension => "leaf transition dimension does not match the fixed plan"
  | rootDimension => "root state dimension does not match the plan"
  | duplicateLeaf => "certificate contains a duplicate shard leaf"
  | duplicateRange => "certificate contains a duplicate shard range"
  | leafCount actual required =>
      "certificate has " ++ toString actual ++ " leaves, plan requires " ++ toString required
  | leafOrder => "certificate leaves are missing or not in fixed plan order"
  | noTransition => "a fixed nonempty plan produced no transition"
  | rootMismatch => "certificate root does not match the expected commitment"

abbrev Checked := Except CertificateError

/-- Lift a failure of the transition algebra. -/
def liftGuard {α : Type} : Result α → Checked α
  | .ok a => .ok a
  | .error e => .error (.guard e)

/-- `_require_int` with a minimum, on an integer. -/
def requireAtLeast (name : String) (minimum value : Int) : Checked Unit :=
  refuseIf (value < minimum) (.belowMinimum name minimum)

/-- `_require_label` -/
def requireLabel (name : String) (value : Text) : Checked Unit := do
  refuseIf (value = []) (.emptyLabel name)
  refuseIf ((value.any fun c => c < 0x20) = true) (.controlLabel name)

/-- `_SHA256_RE.fullmatch` -/
def isSha256 (value : String) : Bool :=
  value.length == 64 && value.toList.all fun c => (Bytes.hexNibble c).isSome

/-- `_require_sha256` -/
def requireSha256 (name value : String) : Checked Unit :=
  refuseIf (isSha256 value = false) (.notSha256 name)

/-! ## Hashing JSON -/

/-- A domain tag: its text and a zero byte. -/
def domainTag (text : String) : Bytes := (Text.ofString text).utf8 ++ [0]

/-- `_PLAN_DOMAIN` -/
def planDomain : Bytes := domainTag "sparkinterval/affine-guard/plan/v1"
/-- `_LEAF_DOMAIN` -/
def leafDomain : Bytes := domainTag "sparkinterval/affine-guard/leaf/v1"
/-- `_MERKLE_NODE_DOMAIN` -/
def merkleNodeDomain : Bytes := domainTag "sparkinterval/affine-guard/merkle-node/v1"
/-- `_MERKLE_ODD_DOMAIN` -/
def merkleOddDomain : Bytes := domainTag "sparkinterval/affine-guard/merkle-odd/v1"
/-- `_MERKLE_EMPTY_DOMAIN` -/
def merkleEmptyDomain : Bytes := domainTag "sparkinterval/affine-guard/merkle-empty/v1"
/-- `_CERTIFICATE_ROOT_DOMAIN` -/
def certificateRootDomain : Bytes := domainTag "sparkinterval/affine-guard/certificate-root/v1"

/-- `canonical_json_bytes` -/
def canonicalJsonBytes (value : Json) : Checked Bytes :=
  match Json.canonicalBytes value with
  | .ok bytes => .ok bytes
  | .error fault => .error (.json fault)

/-- `_hash_json` -/
def hashJson (domain : Bytes) (value : Json) : Checked String := do
  let bytes ← canonicalJsonBytes value
  pure (Sha256.hexdigest (domain ++ bytes))

/-- A member of a JSON object. -/
def member (key : String) (value : Json) : Text × Json := (Text.ofString key, value)

/-- A JSON string. -/
def jsonString (value : String) : Json := .str (Text.ofString value)

/-- A JSON array of integers. -/
def jsonInts (values : List Int) : Json := .arr (values.map .int)

/-! ## Plans -/

/-- The checks of `ShardRange.__post_init__`. -/
def shardChecks (index lower upper workCount : Int) : Checked Unit := do
  requireAtLeast "shard index" 0 index
  requireAtLeast "shard work_count" 1 workCount
  refuseIf (lower ≥ upper) .shardRange
  refuseIf (workCount ≠ upper - lower) .shardWorkCount

/-- One literal, nonempty half-open work range in a fixed plan. -/
@[ext]
structure ShardRange where
  index : Int
  lower : Int
  upper : Int
  workCount : Int
  valid : shardChecks index lower upper workCount = .ok ()

def ShardRange.make (index lower upper workCount : Int) : Checked ShardRange :=
  match h : shardChecks index lower upper workCount with
  | .ok () => .ok ⟨index, lower, upper, workCount, h⟩
  | .error e => .error e

def ShardRange.toDict (shard : ShardRange) : Json :=
  .obj [member "index" (.int shard.index), member "lower" (.int shard.lower),
    member "upper" (.int shard.upper), member "work_count" (.int shard.workCount)]

/-- The loop over the shards: consecutive indices, no gap and no overlap. -/
def coverageStep (expectedLower : Int) (entry : ShardRange × Nat) : Checked Int := do
  let (shard, expectedIndex) := entry
  refuseIf (shard.index ≠ expectedIndex) .planIndexOrder
  refuseIf (shard.lower > expectedLower) (.gapBefore shard.index expectedLower shard.lower)
  refuseIf (shard.lower < expectedLower) (.overlapBefore shard.index expectedLower shard.lower)
  pure shard.upper

/-- The checks of `FixedShardPlan.__post_init__`. -/
def planChecks (algorithm : Text) (stateDimension domainLower domainUpper : Int)
    (shards : List ShardRange) : Checked Unit := do
  requireLabel "algorithm" algorithm
  requireAtLeast "state_dimension" 1 stateDimension
  refuseIf (domainLower ≥ domainUpper) .planDomain
  refuseIf (shards = []) .planNoShards
  refuseIf (¬ (shards.map ShardRange.index).Nodup) .planDuplicateIndex
  refuseIf (¬ (shards.map fun shard => (shard.lower, shard.upper)).Nodup) .planDuplicateRange
  let endpoint ← shards.zipIdx.foldlM coverageStep domainLower
  refuseIf (endpoint < domainUpper) (.gapAfter domainUpper endpoint)
  refuseIf (endpoint > domainUpper) (.exceedsDomain domainUpper)

/-- The only accepted ordering and coverage of a campaign's work domain. -/
@[ext]
structure FixedShardPlan where
  algorithm : Text
  stateDimension : Int
  domainLower : Int
  domainUpper : Int
  shards : List ShardRange
  valid : planChecks algorithm stateDimension domainLower domainUpper shards = .ok ()

def FixedShardPlan.make (algorithm : Text) (stateDimension domainLower domainUpper : Int)
    (shards : List ShardRange) : Checked FixedShardPlan :=
  match h : planChecks algorithm stateDimension domainLower domainUpper shards with
  | .ok () => .ok ⟨algorithm, stateDimension, domainLower, domainUpper, shards, h⟩
  | .error e => .error e

def FixedShardPlan.toDict (plan : FixedShardPlan) : Json :=
  .obj [member "plan_schema" (jsonString "sparkinterval.affine-guard-plan.v1"),
    member "algorithm" (.str plan.algorithm),
    member "state_dimension" (.int plan.stateDimension),
    member "domain" (.obj [member "lower" (.int plan.domainLower),
      member "upper" (.int plan.domainUpper)]),
    member "shards" (.arr (plan.shards.map ShardRange.toDict))]

/-- `plan_sha256` -/
def FixedShardPlan.planSha256 (plan : FixedShardPlan) : Checked String :=
  hashJson planDomain plan.toDict

/-! ## Leaves -/

/-- A row claim attaining one aggregate guard coordinate. -/
@[ext]
structure TightGuardWitness where
  rowIndex : Int
  prefixDelta : Int
  rowGuard : Int
  deriving DecidableEq

def TightGuardWitness.derivedGuard (witness : TightGuardWitness) : Int :=
  witness.rowGuard - witness.prefixDelta

def TightGuardWitness.toDict (witness : TightGuardWitness) : Json :=
  .obj [member "row_index" (.int witness.rowIndex), member "prefix_delta" (.int witness.prefixDelta),
    member "row_guard" (.int witness.rowGuard)]

def AffineGuardTransition.toDict (t : AffineGuardTransition) : Json :=
  .obj [member "delta" (jsonInts t.delta), member "lower_guard" (jsonInts t.lowerGuard),
    member "upper_guard" (jsonInts t.upperGuard)]

/-- One tight witness against its guard coordinate. -/
def witnessCheck (side : String) (lower upper : Int) (entry : (TightGuardWitness × Int) × Nat) :
    Checked Unit := do
  let ((witness, guard), coordinate) := entry
  refuseIf (¬ (lower ≤ witness.rowIndex ∧ witness.rowIndex < upper))
    (.witnessOutside side coordinate)
  refuseIf (witness.derivedGuard ≠ guard)
    (.witnessNotTight side coordinate witness.derivedGuard guard)

/-- The witnesses of one side. -/
def sideChecks (side : String) (lower upper : Int) (witnesses : List TightGuardWitness)
    (guards : List Int) : Checked Unit :=
  (witnesses.zip guards).zipIdx.forM (witnessCheck side lower upper)

/-- The checks of `AffineGuardLeaf.__post_init__`. -/
def leafChecks (planSha256 : String) (shardIndex lower upper workCount : Int)
    (rowRootSha256 : String) (transition : AffineGuardTransition)
    (lowerTightWitnesses upperTightWitnesses : List TightGuardWitness)
    (exceptionRootSha256 : String) : Checked Unit := do
  requireSha256 "plan_sha256" planSha256
  requireAtLeast "shard_index" 0 shardIndex
  requireAtLeast "work_count" 1 workCount
  refuseIf (lower ≥ upper) .leafRange
  refuseIf (workCount ≠ upper - lower) .leafWorkCount
  requireSha256 "row_root_sha256" rowRootSha256
  requireSha256 "exception_root_sha256" exceptionRootSha256
  refuseIf (lowerTightWitnesses.length ≠ transition.dimension
    ∨ upperTightWitnesses.length ≠ transition.dimension) .leafWitnessCount
  sideChecks "lower" lower upper lowerTightWitnesses transition.lowerGuard
  sideChecks "upper" lower upper upperTightWitnesses transition.upperGuard

/-- A plan-bound shard summary committed as one Merkle leaf. -/
@[ext]
structure AffineGuardLeaf where
  planSha256 : String
  shardIndex : Int
  lower : Int
  upper : Int
  workCount : Int
  rowRootSha256 : String
  transition : AffineGuardTransition
  lowerTightWitnesses : List TightGuardWitness
  upperTightWitnesses : List TightGuardWitness
  exceptionRootSha256 : String
  valid : leafChecks planSha256 shardIndex lower upper workCount rowRootSha256 transition
    lowerTightWitnesses upperTightWitnesses exceptionRootSha256 = .ok ()

def AffineGuardLeaf.toDict (leaf : AffineGuardLeaf) : Json :=
  .obj [member "leaf_schema" (jsonString "sparkinterval.affine-guard-leaf.v1"),
    member "plan_sha256" (jsonString leaf.planSha256),
    member "shard" (.obj [member "index" (.int leaf.shardIndex), member "lower" (.int leaf.lower),
      member "upper" (.int leaf.upper), member "work_count" (.int leaf.workCount)]),
    member "row_root_sha256" (jsonString leaf.rowRootSha256),
    member "transition" leaf.transition.toDict,
    member "tight_witnesses" (.obj [
      member "lower" (.arr (leaf.lowerTightWitnesses.map TightGuardWitness.toDict)),
      member "upper" (.arr (leaf.upperTightWitnesses.map TightGuardWitness.toDict))]),
    member "exception_root_sha256" (jsonString leaf.exceptionRootSha256)]

/-- `leaf_sha256` -/
def AffineGuardLeaf.leafSha256 (leaf : AffineGuardLeaf) : Checked String :=
  hashJson leafDomain leaf.toDict

/-- `validate_against` -/
def AffineGuardLeaf.validateAgainst (leaf : AffineGuardLeaf) (plan : FixedShardPlan) :
    Checked Unit := do
  let planSha256 ← plan.planSha256
  refuseIf (leaf.planSha256 ≠ planSha256) .leafOtherPlan
  match plan.shards[leaf.shardIndex.toNat]? with
  | none => .error .leafNotInPlan
  | some expected => do
      refuseIf ((leaf.shardIndex, leaf.lower, leaf.upper, leaf.workCount)
        ≠ (expected.index, expected.lower, expected.upper, expected.workCount)) .leafMismatch
      refuseIf ((leaf.transition.dimension : Int) ≠ plan.stateDimension) .leafDimension

/-! ## Merkle reduction -/

/-- The messages of `_merkle_reduce` under its three domains, and those of the leaves. -/
def merkleEncoding (leafDomain nodeDomain oddDomain emptyDomain : Bytes) :
    MerkleTree.Encoding Bytes Bytes Bytes where
  leafMsg body := leafDomain ++ body
  nodeMsg left right := nodeDomain ++ left ++ right
  oddMsg left := oddDomain ++ left
  emptyMsg := emptyDomain

/-- `bytes.fromhex` on a checked digest. -/
def fromHex (entry : String × Nat) : Checked Bytes := do
  let (digest, index) := entry
  let name := "digest[" ++ toString index ++ "]"
  requireSha256 name digest
  match Bytes.ofHexChars digest.toList with
  | some bytes => .ok bytes
  | none => .error (.notSha256 name)

/-- `_merkle_reduce` -/
def merkleReduce (enc : MerkleTree.Encoding Bytes Bytes Bytes) (digests : List String) :
    Checked String := do
  let level ← digests.zipIdx.mapM fromHex
  match enc.reduceDigests Sha256.digest level with
  | [] => pure (Sha256.hexdigest enc.emptyMsg)
  | root :: _ => pure root.hex

theorem merkleReduce_cons {enc : MerkleTree.Encoding Bytes Bytes Bytes} {digests : List String}
    {level rest : List Bytes} {root : Bytes} (h : digests.zipIdx.mapM fromHex = .ok level)
    (hlevel : enc.reduceDigests Sha256.digest level = root :: rest) :
    merkleReduce enc digests = .ok root.hex := by
  rw [merkleReduce, h, Fallible.ok_bind, hlevel]
  rfl

theorem merkleReduce_nil {enc : MerkleTree.Encoding Bytes Bytes Bytes} {digests : List String}
    {level : List Bytes} (h : digests.zipIdx.mapM fromHex = .ok level)
    (hlevel : enc.reduceDigests Sha256.digest level = []) :
    merkleReduce enc digests = .ok (Sha256.hexdigest enc.emptyMsg) := by
  rw [merkleReduce, h, Fallible.ok_bind, hlevel]
  rfl

/-- The leaf tree. -/
def leafEncoding : MerkleTree.Encoding Bytes Bytes Bytes :=
  merkleEncoding leafDomain merkleNodeDomain merkleOddDomain merkleEmptyDomain

/-- `affine_guard_leaf_merkle_root` -/
def affineGuardLeafMerkleRoot (leaves : List AffineGuardLeaf) : Checked String := do
  let digests ← leaves.mapM AffineGuardLeaf.leafSha256
  merkleReduce leafEncoding digests

/-! ## The verifier -/

/-- The checked boundary state and content commitments of one campaign. -/
structure AffineGuardVerification where
  planSha256 : String
  rootState : List Int
  incomingStates : List (List Int)
  finalState : List Int
  aggregateTransition : AffineGuardTransition
  leafMerkleRootSha256 : String
  certificateRootSha256 : String
  deriving DecidableEq

/-- The payload under the certificate root. -/
def rootPayload (planSha256 : String) (rootState finalState : List Int) (leafCount : Nat)
    (leafRoot : String) : Json :=
  .obj [member "certificate_schema" (jsonString "sparkinterval.affine-guard-certificate.v1"),
    member "plan_sha256" (jsonString planSha256),
    member "root_state" (jsonInts rootState),
    member "final_state" (jsonInts finalState),
    member "leaf_count" (.int leafCount),
    member "leaf_merkle_root_sha256" (jsonString leafRoot)]

/-- One leaf in its place. -/
def leafCheck (plan : FixedShardPlan) (entry : AffineGuardLeaf × Nat) : Checked Unit := do
  let (leaf, expectedIndex) := entry
  refuseIf (leaf.shardIndex ≠ expectedIndex) .leafOrder
  leaf.validateAgainst plan

/-- Count, order and plan binding of the leaves. -/
def leavesCheck (plan : FixedShardPlan) (leaves : List AffineGuardLeaf) : Checked Unit := do
  refuseIf (¬ (leaves.map AffineGuardLeaf.shardIndex).Nodup) .duplicateLeaf
  refuseIf (¬ (leaves.map fun leaf => (leaf.lower, leaf.upper)).Nodup) .duplicateRange
  refuseIf (leaves.length ≠ plan.shards.length) (.leafCount leaves.length plan.shards.length)
  leaves.zipIdx.forM (leafCheck plan)

/-- The comparison with an expected certificate root, when the caller has one. -/
def expectedCheck (certificateRoot : String) : Option String → Checked Unit
  | none => .ok ()
  | some expected => do
      requireSha256 "expected_certificate_root_sha256" expected
      refuseIf (certificateRoot ≠ expected) .rootMismatch

/-- `verify_affine_guard_certificate` -/
def verifyAffineGuardCertificate (plan : FixedShardPlan) (rootState : List Int)
    (leaves : List AffineGuardLeaf) (expectedCertificateRootSha256 : Option String) :
    Checked AffineGuardVerification := do
  let root ← liftGuard (requireVector "root_state" rootState)
  refuseIf ((root.length : Int) ≠ plan.stateDimension) .rootDimension
  leavesCheck plan leaves
  let scan ← liftGuard (exclusiveScanFromRoot root (leaves.map AffineGuardLeaf.transition))
  match scan.aggregateTransition with
  | none => .error .noTransition
  | some aggregate => do
      let leafRoot ← affineGuardLeafMerkleRoot leaves
      let planSha256 ← plan.planSha256
      let certificateRoot ← hashJson certificateRootDomain
        (rootPayload planSha256 root scan.finalState leaves.length leafRoot)
      expectedCheck certificateRoot expectedCertificateRootSha256
      pure { planSha256 := planSha256, rootState := root, incomingStates := scan.incomingStates
             finalState := scan.finalState, aggregateTransition := aggregate
             leafMerkleRootSha256 := leafRoot, certificateRootSha256 := certificateRoot }

end AttestedCompute.Affine
