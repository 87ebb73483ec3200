import AttestedCompute.Affine.Certificate
import AttestedCompute.Affine.Scan
import AttestedCompute.Receipt.Sha256Eval

/-!
# The certificate root binds the certificate

Two certificates the verifier accepts under one root are the same certificate: the
root commits to the plan digest, the root state and the leaf tree, and each of those
commits to its content. The argument reads the commitments backwards, one hash at a
time, so it needs the hash to be injective on the messages that these two
verifications hash and nowhere else.

The leaf count is part of the root payload, but the leaf tree does not need it:
leaves, pairs and odd nodes are hashed under different domains, so a tree root
already determines the leaf list of whatever length.
-/

namespace AttestedCompute.Affine

open Fallible (refuseIf refuseIf_ok bind_ok pure_ok mapM_ok)
open Receipt.NatSha256 (hexdigest_eq_hashWords)

/-! ## The dictionaries determine the values -/

/-- The canonical form of `f` determines its argument. -/
def Faithful {α : Type} (f : α → Json) : Prop :=
  ∀ {a b : α}, (f a).sortKeys = (f b).sortKeys → a = b

/-- Two objects written with the same distinct keys have the same canonical values. -/
theorem fields_eq (keys : List String) (xs ys : List Json)
    (hkeys : keys.Nodup) (hx : xs.length = keys.length)
    (hy : ys.length = keys.length)
    (h : (Json.obj (List.zip (keys.map Text.ofString) xs)).sortKeys
      = (Json.obj (List.zip (keys.map Text.ofString) ys)).sortKeys) :
    xs.map Json.sortKeys = ys.map Json.sortKeys :=
  Json.sortKeys_obj_injective (hkeys.map Text.ofString_injective) (by rw [hx, List.length_map])
    (by rw [hy, List.length_map]) h

theorem sortKeys_int {m n : Int} (h : (Json.int m).sortKeys = (Json.int n).sortKeys) : m = n :=
  Json.int.inj h

theorem sortKeys_str {s t : Text} (h : (Json.str s).sortKeys = (Json.str t).sortKeys) : s = t :=
  Json.str.inj h

theorem faithful_jsonString : Faithful jsonString := fun h =>
  Text.ofString_injective (sortKeys_str h)

/-- An array of faithful items is faithful. -/
theorem faithful_arr {α : Type} {f : α → Json} (hf : Faithful f) :
    Faithful fun xs : List α => Json.arr (xs.map f) := by
  intro xs ys h
  simp only [Json.sortKeys, Json.sortItems_eq, List.map_map] at h
  exact List.map_injective_iff.mpr (fun _ _ hab => hf hab) (Json.arr.inj h)

theorem faithful_jsonInts : Faithful jsonInts := faithful_arr (f := Json.int) sortKeys_int

theorem faithful_shardRange : Faithful ShardRange.toDict := by
  intro a b h
  have hfields := fields_eq ["index", "lower", "upper", "work_count"]
    [.int a.index, .int a.lower, .int a.upper, .int a.workCount]
    [.int b.index, .int b.lower, .int b.upper, .int b.workCount]
    (by simp) rfl rfl h
  simp only [List.map_cons, List.cons.injEq] at hfields
  obtain ⟨hindex, hlower, hupper, hwork, -⟩ := hfields
  exact ShardRange.ext (sortKeys_int hindex) (sortKeys_int hlower) (sortKeys_int hupper)
    (sortKeys_int hwork)

theorem faithful_plan : Faithful FixedShardPlan.toDict := by
  intro a b h
  have hfields := fields_eq ["plan_schema", "algorithm", "state_dimension", "domain", "shards"]
    [_, .str a.algorithm, .int a.stateDimension, _, .arr (a.shards.map ShardRange.toDict)]
    [_, .str b.algorithm, .int b.stateDimension, _, .arr (b.shards.map ShardRange.toDict)]
    (by simp) rfl rfl h
  simp only [List.map_cons, List.cons.injEq] at hfields
  obtain ⟨-, halgorithm, hdimension, hdomain, hshards, -⟩ := hfields
  have hbounds := fields_eq ["lower", "upper"]
    [.int a.domainLower, .int a.domainUpper]
    [.int b.domainLower, .int b.domainUpper]
    (by simp) rfl rfl hdomain
  simp only [List.map_cons, List.cons.injEq] at hbounds
  exact FixedShardPlan.ext (sortKeys_str halgorithm) (sortKeys_int hdimension)
    (sortKeys_int hbounds.1) (sortKeys_int hbounds.2.1)
    (faithful_arr faithful_shardRange hshards)

theorem faithful_witness : Faithful TightGuardWitness.toDict := by
  intro a b h
  have hfields := fields_eq ["row_index", "prefix_delta", "row_guard"]
    [.int a.rowIndex, .int a.prefixDelta, .int a.rowGuard]
    [.int b.rowIndex, .int b.prefixDelta, .int b.rowGuard]
    (by simp) rfl rfl h
  simp only [List.map_cons, List.cons.injEq] at hfields
  obtain ⟨hrow, hdelta, hguard, -⟩ := hfields
  exact TightGuardWitness.ext (sortKeys_int hrow) (sortKeys_int hdelta) (sortKeys_int hguard)

theorem faithful_transition : Faithful AffineGuardTransition.toDict := by
  intro a b h
  have hfields := fields_eq ["delta", "lower_guard", "upper_guard"]
    [jsonInts a.delta, jsonInts a.lowerGuard, jsonInts a.upperGuard]
    [jsonInts b.delta, jsonInts b.lowerGuard, jsonInts b.upperGuard]
    (by simp) rfl rfl h
  simp only [List.map_cons, List.cons.injEq] at hfields
  obtain ⟨hdelta, hlower, hupper, -⟩ := hfields
  have hd := faithful_jsonInts hdelta
  have hl := faithful_jsonInts hlower
  have hu := faithful_jsonInts hupper
  cases a
  cases b
  subst hd hl hu
  rfl

theorem faithful_leaf : Faithful AffineGuardLeaf.toDict := by
  intro a b h
  have hfields := fields_eq ["leaf_schema", "plan_sha256", "shard", "row_root_sha256", "transition",
      "tight_witnesses", "exception_root_sha256"]
    [_, jsonString a.planSha256, _, jsonString a.rowRootSha256, a.transition.toDict, _,
      jsonString a.exceptionRootSha256]
    [_, jsonString b.planSha256, _, jsonString b.rowRootSha256, b.transition.toDict, _,
      jsonString b.exceptionRootSha256]
    (by simp) rfl rfl h
  simp only [List.map_cons, List.cons.injEq] at hfields
  obtain ⟨-, hplan, hshard, hrow, htransition, hwitnesses, hexception, -⟩ := hfields
  have hrange := fields_eq ["index", "lower", "upper", "work_count"]
    [.int a.shardIndex, .int a.lower, .int a.upper, .int a.workCount]
    [.int b.shardIndex, .int b.lower, .int b.upper, .int b.workCount]
    (by simp) rfl rfl hshard
  simp only [List.map_cons, List.cons.injEq] at hrange
  obtain ⟨hindex, hlower, hupper, hwork, -⟩ := hrange
  have hsides := fields_eq ["lower", "upper"]
    [.arr (a.lowerTightWitnesses.map TightGuardWitness.toDict),
      .arr (a.upperTightWitnesses.map TightGuardWitness.toDict)]
    [.arr (b.lowerTightWitnesses.map TightGuardWitness.toDict),
      .arr (b.upperTightWitnesses.map TightGuardWitness.toDict)]
    (by simp) rfl rfl hwitnesses
  simp only [List.map_cons, List.cons.injEq] at hsides
  exact AffineGuardLeaf.ext (faithful_jsonString hplan) (sortKeys_int hindex)
    (sortKeys_int hlower) (sortKeys_int hupper) (sortKeys_int hwork) (faithful_jsonString hrow)
    (faithful_transition htransition) (faithful_arr faithful_witness hsides.1)
    (faithful_arr faithful_witness hsides.2.1) (faithful_jsonString hexception)

/-- What the root payload binds. -/
theorem rootPayload_injective {planSha256 planSha256' leafRoot leafRoot' : String}
    {rootState rootState' finalState finalState' : List Int} {leafCount leafCount' : Nat}
    (h : (rootPayload planSha256 rootState finalState leafCount leafRoot).sortKeys
      = (rootPayload planSha256' rootState' finalState' leafCount' leafRoot').sortKeys) :
    planSha256 = planSha256' ∧ rootState = rootState' ∧ leafRoot = leafRoot' := by
  have hfields := fields_eq ["certificate_schema", "plan_sha256", "root_state", "final_state", "leaf_count",
      "leaf_merkle_root_sha256"]
    [_, jsonString planSha256, jsonInts rootState, _, _, jsonString leafRoot]
    [_, jsonString planSha256', jsonInts rootState', _, _, jsonString leafRoot']
    (by simp) rfl rfl h
  simp only [List.map_cons, List.cons.injEq] at hfields
  obtain ⟨-, hplan, hroot, -, -, hleaf, -⟩ := hfields
  exact ⟨faithful_jsonString hplan, faithful_jsonInts hroot, faithful_jsonString hleaf⟩

/-! ## The messages of a verification -/

/-- The message `_hash_json` hashes, if the value has canonical bytes. -/
def jsonMessages (domain : Bytes) (value : Json) : List Bytes :=
  match Json.canonicalBytes value with
  | .ok body => [domain ++ body]
  | .error _ => []

/-- The canonical bytes of every leaf. -/
def leafBodies (leaves : List AffineGuardLeaf) : Checked (List Bytes) :=
  leaves.mapM fun leaf => canonicalJsonBytes leaf.toDict

/-- Every message hashed for the leaf tree. -/
def leafMessages (leaves : List AffineGuardLeaf) : List Bytes :=
  match leafBodies leaves with
  | .ok bodies => leafEncoding.listMessages Sha256.digest bodies
  | .error _ => []

/-- Every message hashed by a verification with result `v`. -/
def certificateMessages (plan : FixedShardPlan) (leaves : List AffineGuardLeaf)
    (v : AffineGuardVerification) : List Bytes :=
  jsonMessages planDomain plan.toDict ++ leafMessages leaves
    ++ jsonMessages certificateRootDomain (rootPayload v.planSha256 v.rootState v.finalState
        leaves.length v.leafMerkleRootSha256)

theorem canonicalJsonBytes_ok {value : Json} {bytes : Bytes} :
    canonicalJsonBytes value = .ok bytes ↔ Json.canonicalBytes value = .ok bytes := by
  unfold canonicalJsonBytes
  cases Json.canonicalBytes value with
  | ok b => simp
  | error e => simp

theorem hashJson_ok {domain : Bytes} {value : Json} {digest : String} :
    hashJson domain value = .ok digest ↔ ∃ body, Json.canonicalBytes value = .ok body
      ∧ Sha256.hexdigest (domain ++ body) = digest := by
  simp only [hashJson, bind_ok, canonicalJsonBytes_ok, pure_ok]

theorem hexdigest_inj {m n : Bytes} (h : Sha256.hexdigest m = Sha256.hexdigest n) :
    Sha256.digest m = Sha256.digest n := Bytes.hex_injective h

/-- Equal JSON digests are digests of one canonical form. -/
theorem hashJson_injective {domain : Bytes} {v w : Json} {digest : String} {S : Set Bytes}
    (hinj : Set.InjOn Sha256.digest S) (hvS : ∀ m ∈ jsonMessages domain v, m ∈ S)
    (hwS : ∀ m ∈ jsonMessages domain w, m ∈ S) (hv : hashJson domain v = .ok digest)
    (hw : hashJson domain w = .ok digest) : v.sortKeys = w.sortKeys := by
  obtain ⟨body, hbody, hdigest⟩ := hashJson_ok.mp hv
  obtain ⟨body', hbody', hdigest'⟩ := hashJson_ok.mp hw
  have hmem : domain ++ body ∈ S := hvS _ (by rw [jsonMessages, hbody]; simp)
  have hmem' : domain ++ body' ∈ S := hwS _ (by rw [jsonMessages, hbody']; simp)
  have heq := hinj hmem hmem' (hexdigest_inj (hdigest.trans hdigest'.symm))
  rw [List.append_cancel_left heq] at hbody
  exact Json.canonicalBytes_injective hbody hbody'

/-! ## The leaf tree -/

theorem isSha256_hexdigest (m : Bytes) : isSha256 (Sha256.hexdigest m) = true := by
  have hchars : ∀ c ∈ (Sha256.hexdigest m).toList, (Bytes.hexNibble c).isSome = true := by
    intro c hc
    rw [Sha256.hexdigest, Bytes.hex, String.toList_ofList] at hc
    obtain ⟨d, hd, rfl⟩ := List.mem_map.mp hc
    rw [Bytes.hexNibble_hexDigit (Bytes.isNumeral_nibbles _ d hd)]
    rfl
  rw [isSha256, Sha256.length_hexdigest, List.all_eq_true.mpr hchars]
  rfl

theorem fromHex_hexdigest (m : Bytes) (index : Nat) :
    fromHex (Sha256.hexdigest m, index) = .ok (Sha256.digest m) := by
  simp only [fromHex, requireSha256, bind_ok, refuseIf_ok, isSha256_hexdigest]
  exact ⟨(), by simp, by rw [Sha256.hexdigest, Bytes.ofHexChars_hex]⟩

/-- A leaf digest is the hash of its body under the leaf domain. -/
theorem leafDigests_ok {leaves : List AffineGuardLeaf} {digests : List String} :
    leaves.mapM AffineGuardLeaf.leafSha256 = .ok digests
      ↔ ∃ bodies, leafBodies leaves = .ok bodies
        ∧ digests = bodies.map fun body => Sha256.hexdigest (leafDomain ++ body) := by
  rw [mapM_ok, leafBodies]
  simp only [mapM_ok, AffineGuardLeaf.leafSha256, hashJson_ok, canonicalJsonBytes_ok]
  induction leaves generalizing digests with
  | nil => simp
  | cons leaf leaves ih =>
      simp only [List.forall₂_cons_left_iff, ih]
      constructor
      · rintro ⟨_, _, ⟨body, hbody, rfl⟩, ⟨bodies, hbodies, rfl⟩, rfl⟩
        exact ⟨body :: bodies, ⟨body, bodies, hbody, hbodies, rfl⟩, rfl⟩
      · rintro ⟨_, ⟨body, bodies, hbody, hbodies, rfl⟩, rfl⟩
        exact ⟨_, _, ⟨body, hbody, rfl⟩, ⟨bodies, hbodies, rfl⟩, rfl⟩

theorem fromHex_digests (bodies : List Bytes) (start : Nat) :
    ((bodies.map fun body => Sha256.hexdigest (leafDomain ++ body)).zipIdx start).mapM fromHex
      = .ok (bodies.map fun body => Sha256.digest (leafDomain ++ body)) := by
  induction bodies generalizing start with
  | nil => rfl
  | cons body bodies ih =>
      rw [List.map_cons, List.zipIdx_cons, List.mapM_cons, fromHex_hexdigest, ih]
      rfl

/-- **The Merkle root is the root of the leaf bodies.** -/
theorem leafMerkleRoot_ok {leaves : List AffineGuardLeaf} {root : String}
    (h : affineGuardLeafMerkleRoot leaves = .ok root) :
    ∃ bodies d, leafBodies leaves = .ok bodies ∧ leafEncoding.IsRoot Sha256.digest bodies d
      ∧ root = Bytes.hex d := by
  rw [affineGuardLeafMerkleRoot, bind_ok] at h
  obtain ⟨digests, hdigests, hreduce⟩ := h
  obtain ⟨bodies, hbodies, rfl⟩ := leafDigests_ok.mp hdigests
  have hfrom := fromHex_digests bodies 0
  refine ⟨bodies, ?_⟩
  by_cases hnil : bodies = []
  · subst hnil
    have hempty := @merkleReduce_nil leafEncoding _ _ hfrom rfl
    refine ⟨Sha256.digest leafEncoding.emptyMsg, hbodies, ?_, ?_⟩
    · rw [MerkleTree.Encoding.IsRoot, if_pos rfl]
    · exact (Except.ok.inj (hempty.symm.trans hreduce)).symm
  · obtain ⟨t, ht, -⟩ := MerkleTree.exists_tree hnil
    have hroot : leafEncoding.IsRoot Sha256.digest bodies _ :=
      (MerkleTree.isRoot_iff ht hnil).mpr rfl
    have hlevel := hroot
    rw [MerkleTree.Encoding.IsRoot, if_neg hnil] at hlevel
    refine ⟨_, hbodies, hroot, ?_⟩
    exact (Except.ok.inj ((merkleReduce_cons hfrom hlevel).symm.trans hreduce)).symm

/-- Tags that differ at a position both have are the beginnings of different messages. -/
theorem tag_ne {tag tag' : Bytes} (i : Nat) (hi : i < tag.length) (hi' : i < tag'.length)
    (hne : tag[i]? ≠ tag'[i]?) (body body' : Bytes) : tag ++ body ≠ tag' ++ body' := by
  intro h
  have hget := congrArg (fun m => m[i]?) h
  simp only [List.getElem?_append_left hi, List.getElem?_append_left hi'] at hget
  exact hne hget

theorem leafEncoding_separated : leafEncoding.Separated Sha256.digest where
  leaf_inj h := List.append_cancel_left h
  node_inj h := by
    have hbody := List.append_cancel_left ((List.append_assoc ..).symm.trans (h.trans
      (List.append_assoc ..)))
    exact List.append_inj hbody (by simp)
  odd_inj h := List.append_cancel_left h
  leaf_node _ _ _ := by
    show leafDomain ++ _ ≠ merkleNodeDomain ++ _ ++ _
    rw [List.append_assoc]
    exact tag_ne 27 (by decide +kernel) (by decide +kernel) (by decide +kernel) _ _
  leaf_odd _ _ := tag_ne 27 (by decide +kernel) (by decide +kernel) (by decide +kernel) _ _
  node_odd _ _ _ := by
    show merkleNodeDomain ++ _ ++ _ ≠ merkleOddDomain ++ _
    rw [List.append_assoc]
    exact tag_ne 34 (by decide +kernel) (by decide +kernel) (by decide +kernel) _ _
  empty_leaf _ := by
    show merkleEmptyDomain ≠ leafDomain ++ _
    rw [← List.append_nil merkleEmptyDomain]
    exact tag_ne 27 (by decide +kernel) (by decide +kernel) (by decide +kernel) _ _
  empty_node _ _ := by
    show merkleEmptyDomain ≠ merkleNodeDomain ++ _ ++ _
    rw [← List.append_nil merkleEmptyDomain, List.append_assoc]
    exact tag_ne 34 (by decide +kernel) (by decide +kernel) (by decide +kernel) _ _
  empty_odd _ := by
    show merkleEmptyDomain ≠ merkleOddDomain ++ _
    rw [← List.append_nil merkleEmptyDomain]
    exact tag_ne 34 (by decide +kernel) (by decide +kernel) (by decide +kernel) _ _

/-- Leaves with equal bodies are equal. -/
theorem leafBodies_injective {leaves leaves' : List AffineGuardLeaf} {bodies : List Bytes}
    (h : leafBodies leaves = .ok bodies) (h' : leafBodies leaves' = .ok bodies) :
    leaves = leaves' := by
  rw [leafBodies, mapM_ok] at h h'
  induction h generalizing leaves' with
  | nil => exact (List.forall₂_nil_right_iff.mp h').symm
  | @cons leaf body leaves bodies hbody _ ih =>
      obtain ⟨leaf', rest', hbody', hrest', rfl⟩ := List.forall₂_cons_right_iff.mp h'
      have hleaf := faithful_leaf (Json.canonicalBytes_injective (canonicalJsonBytes_ok.mp hbody)
        (canonicalJsonBytes_ok.mp hbody'))
      rw [hleaf, ih hrest']

/-- **A leaf-tree root determines the leaf list**, whatever the two lengths. -/
theorem leafMerkleRoot_injective {leaves leaves' : List AffineGuardLeaf} {root : String}
    (hinj : Set.InjOn Sha256.digest {m | m ∈ leafMessages leaves ∨ m ∈ leafMessages leaves'})
    (h : affineGuardLeafMerkleRoot leaves = .ok root)
    (h' : affineGuardLeafMerkleRoot leaves' = .ok root) : leaves = leaves' := by
  obtain ⟨bodies, d, hbodies, hroot, hhex⟩ := leafMerkleRoot_ok h
  obtain ⟨bodies', d', hbodies', hroot', hhex'⟩ := leafMerkleRoot_ok h'
  have hd : d = d' := Bytes.hex_injective (hhex.symm.trans hhex')
  rw [leafMessages, leafMessages, hbodies, hbodies'] at hinj
  have heq := MerkleTree.root_injective leafEncoding_separated hinj hroot (hd ▸ hroot')
  exact leafBodies_injective hbodies (heq ▸ hbodies')

/-! ## The certificate root -/

theorem liftGuard_ok {α : Type} {x : Result α} {a : α} : liftGuard x = .ok a ↔ x = .ok a := by
  cases x with
  | ok b => simp [liftGuard]
  | error e => simp [liftGuard]

/-- The commitments of an accepted certificate. -/
theorem verify_ok {plan : FixedShardPlan} {root : List Int} {leaves : List AffineGuardLeaf}
    {expected : Option String} {v : AffineGuardVerification}
    (h : verifyAffineGuardCertificate plan root leaves expected = .ok v) :
    v.rootState = root ∧ affineGuardLeafMerkleRoot leaves = .ok v.leafMerkleRootSha256
      ∧ plan.planSha256 = .ok v.planSha256
      ∧ hashJson certificateRootDomain (rootPayload v.planSha256 v.rootState v.finalState
          leaves.length v.leafMerkleRootSha256) = .ok v.certificateRootSha256 := by
  rw [verifyAffineGuardCertificate, bind_ok] at h
  obtain ⟨root', hroot, h⟩ := h
  obtain ⟨-, rfl⟩ := requireVector_ok.mp (liftGuard_ok.mp hroot)
  simp only [bind_ok] at h
  obtain ⟨_, -, _, -, scan, -, h⟩ := h
  split at h
  · exact absurd h (by simp)
  · simp only [bind_ok, pure_ok] at h
    obtain ⟨leafRoot, hleaf, planSha256, hplan, certificateRoot, hcertificate, _, -, rfl⟩ := h
    exact ⟨rfl, hleaf, hplan, hcertificate⟩

/-- The message of a JSON digest. -/
theorem jsonMessages_of_hashJson {domain : Bytes} {value : Json} {digest : String}
    (h : hashJson domain value = .ok digest) :
    ∃ m, jsonMessages domain value = [m] ∧ Sha256.hexdigest m = digest := by
  obtain ⟨body, hbody, hdigest⟩ := hashJson_ok.mp h
  exact ⟨domain ++ body, by rw [jsonMessages, hbody], hdigest⟩

/-- A single leaf is its own tree. -/
theorem leafMerkleRoot_single {leaf : AffineGuardLeaf} {digest : String}
    (h : leaf.leafSha256 = .ok digest) :
    affineGuardLeafMerkleRoot [leaf] = .ok digest
      ∧ ∃ m, leafMessages [leaf] = [m] ∧ Sha256.hexdigest m = digest := by
  obtain ⟨body, hbody, rfl⟩ := hashJson_ok.mp h
  have hbodies : leafBodies [leaf] = .ok [body] := by
    rw [leafBodies, mapM_ok]
    exact .cons (canonicalJsonBytes_ok.mpr hbody) .nil
  have hreduce : ∀ d, leafEncoding.reduceDigests Sha256.digest [d] = [d] := fun _ => rfl
  constructor
  · rw [affineGuardLeafMerkleRoot, bind_ok]
    refine ⟨_, leafDigests_ok.mpr ⟨[body], hbodies, rfl⟩, ?_⟩
    rw [merkleReduce, bind_ok]
    refine ⟨_, fromHex_digests [body] 0, ?_⟩
    rw [List.map_singleton, hreduce, Sha256.hexdigest]
    rfl
  · refine ⟨leafDomain ++ body, ?_, rfl⟩
    rw [leafMessages, hbodies]
    rfl

/-- The checks of the verifier, put together. -/
theorem verify_intro {plan : FixedShardPlan} {root : List Int} {leaves : List AffineGuardLeaf}
    (scan : ExclusiveScanResult) {aggregate : AffineGuardTransition}
    {leafRoot planSha256 certificateRoot : String} (hroot : root ≠ [])
    (hdim : (root.length : Int) = plan.stateDimension) (hleaves : leavesCheck plan leaves = .ok ())
    (hscan : exclusiveScanFromRoot root (leaves.map AffineGuardLeaf.transition) = .ok scan)
    (haggregate : scan.aggregateTransition = some aggregate)
    (hleaf : affineGuardLeafMerkleRoot leaves = .ok leafRoot)
    (hplan : plan.planSha256 = .ok planSha256)
    (hcert : hashJson certificateRootDomain (rootPayload planSha256 root scan.finalState
      leaves.length leafRoot) = .ok certificateRoot) :
    verifyAffineGuardCertificate plan root leaves none
      = .ok { planSha256 := planSha256, rootState := root, incomingStates := scan.incomingStates
              finalState := scan.finalState, aggregateTransition := aggregate
              leafMerkleRootSha256 := leafRoot, certificateRootSha256 := certificateRoot } := by
  rw [verifyAffineGuardCertificate, bind_ok]
  refine ⟨root, liftGuard_ok.mpr (requireVector_ok.mpr ⟨hroot, rfl⟩), ?_⟩
  simp only [bind_ok, refuseIf_ok, liftGuard_ok]
  refine ⟨(), not_not.mpr hdim, (), hleaves, scan, hscan, ?_⟩
  rw [haggregate]
  simp only [bind_ok, pure_ok]
  exact ⟨leafRoot, hleaf, planSha256, hplan, certificateRoot, hcert, (), rfl, rfl⟩

/-- A plan of one shard and its leaf. -/
theorem leavesCheck_single {plan : FixedShardPlan} {leaf : AffineGuardLeaf}
    (hshards : plan.shards.length = 1) (hindex : leaf.shardIndex = 0)
    (hvalid : leaf.validateAgainst plan = .ok ()) : leavesCheck plan [leaf] = .ok () := by
  have hleaf : leafCheck plan (leaf, 0) = .ok () := by
    simp only [leafCheck, bind_ok, refuseIf_ok]
    exact ⟨(), not_not.mpr hindex, hvalid⟩
  simp only [leavesCheck, bind_ok, refuseIf_ok]
  refine ⟨(), by simp, (), by simp, (), by rw [hshards]; simp, ?_⟩
  show (leafCheck plan (leaf, 0) >>= fun _ => pure ()) = _
  rw [hleaf]
  rfl

def onePlan : FixedShardPlan where
  algorithm := Text.ofString "a"
  stateDimension := 1
  domainLower := 0
  domainUpper := 1
  shards := [{ index := 0, lower := 0, upper := 1, workCount := 1, valid := by decide }]
  valid := by decide +kernel

def oneTransition : AffineGuardTransition where
  delta := [1]
  lowerGuard := [0]
  upperGuard := [0]
  nonempty := by decide
  lower_length := rfl
  upper_length := rfl
  guards := by decide

def oneLeaf : AffineGuardLeaf where
  planSha256 := "37d08df5ac707d0be4d8bf1c6c1a60df1a8a362655eb8492b330d29406aae315"
  shardIndex := 0
  lower := 0
  upper := 1
  workCount := 1
  rowRootSha256 := "0000000000000000000000000000000000000000000000000000000000000000"
  transition := oneTransition
  lowerTightWitnesses := [{ rowIndex := 0, prefixDelta := 0, rowGuard := 0 }]
  upperTightWitnesses := [{ rowIndex := 0, prefixDelta := 0, rowGuard := 0 }]
  exceptionRootSha256 := "0000000000000000000000000000000000000000000000000000000000000000"
  valid := by decide +kernel

def oneResult : AffineGuardVerification where
  planSha256 := "37d08df5ac707d0be4d8bf1c6c1a60df1a8a362655eb8492b330d29406aae315"
  rootState := [0]
  incomingStates := [[0]]
  finalState := [1]
  aggregateTransition := oneTransition
  leafMerkleRootSha256 := "4d64bc0b398e2caaefb8b73f122fe0fa30068f3a67b5c6ff04a134a4085f83be"
  certificateRootSha256 := "f9582da46ea96e6106bc6f7bee0619457d7054cca144825c267e3aa4f66fd81e"

/-- The three digests of the certificate, by the evaluator. -/
theorem digests_one : onePlan.planSha256 = .ok oneResult.planSha256
    ∧ oneLeaf.leafSha256 = .ok oneResult.leafMerkleRootSha256
    ∧ hashJson certificateRootDomain (rootPayload oneResult.planSha256 [0] [1] 1
      oneResult.leafMerkleRootSha256) = .ok oneResult.certificateRootSha256 := by
  simp only [FixedShardPlan.planSha256, AffineGuardLeaf.leafSha256, hashJson,
    hexdigest_eq_hashWords]
  refine ⟨?_, ?_, ?_⟩
  · decide +kernel
  · decide +kernel
  · decide +kernel

theorem planSha256_one : onePlan.planSha256 = .ok oneResult.planSha256 := digests_one.1

theorem leafSha256_one : oneLeaf.leafSha256 = .ok oneResult.leafMerkleRootSha256 :=
  digests_one.2.1

theorem certificateRoot_one : hashJson certificateRootDomain (rootPayload oneResult.planSha256 [0]
    [1] 1 oneResult.leafMerkleRootSha256) = .ok oneResult.certificateRootSha256 :=
  digests_one.2.2

theorem validateAgainst_one : oneLeaf.validateAgainst onePlan = .ok () := by
  rw [AffineGuardLeaf.validateAgainst, bind_ok]
  exact ⟨_, planSha256_one, by decide⟩

theorem verify_one : verifyAffineGuardCertificate onePlan [0] [oneLeaf] none = .ok oneResult :=
  verify_intro
    { incomingStates := [[0]], finalState := [1], aggregateTransition := some oneTransition }
    (by decide) rfl (leavesCheck_single rfl rfl validateAgainst_one) rfl rfl
    (leafMerkleRoot_single leafSha256_one).1 planSha256_one certificateRoot_one

/-- The three messages of the certificate have three digests. -/
theorem injOn_one : Set.InjOn Sha256.digest
    {m | m ∈ certificateMessages onePlan [oneLeaf] oneResult} := by
  obtain ⟨plan, hplan, hplanDigest⟩ := jsonMessages_of_hashJson planSha256_one
  obtain ⟨-, leaf, hleaf, hleafDigest⟩ := leafMerkleRoot_single leafSha256_one
  obtain ⟨root, hroot, hrootDigest⟩ := jsonMessages_of_hashJson certificateRoot_one
  have hmessages : certificateMessages onePlan [oneLeaf] oneResult = [plan, leaf, root] :=
    congrArg₂ (· ++ ·) (congrArg₂ (· ++ ·) hplan hleaf) hroot
  have hnodup : ([plan, leaf, root].map Sha256.hexdigest).Nodup := by
    rw [List.map_cons, List.map_cons, List.map_singleton, hplanDigest, hleafDigest, hrootDigest]
    simp [oneResult]
  intro m hm n hn h
  rw [Set.mem_ofPred_eq, hmessages] at hm hn
  exact List.inj_on_of_nodup_map hnodup hm hn (congrArg Bytes.hex h)

end AttestedCompute.Affine
