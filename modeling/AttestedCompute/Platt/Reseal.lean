import AttestedCompute.Platt.Seal

/-!
# Sealing a shard again

What a history of sealing calls leaves behind, each of them finished or stopped after some of
its writes. The unit receipts are those of the first call, less the ones that were removed; the
list and the receipt are the ones the first call built. A further call recomputes the receipt
from the unit receipts, so it goes through only while all of them are there, and it compares
digests that cover the prune flag.
-/

namespace AttestedCompute.Platt

open Fallible

/-! ## What the writes do -/

@[simp] theorem applyWrites_nil (files : ShardFiles) : applyWrites files [] = files := rfl

@[simp] theorem applyWrites_cons (files : ShardFiles) (write : Write) (writes : List Write) :
    applyWrites files (write :: writes) = applyWrites (applyWrite files write) writes := rfl

/-- Removing unit receipts touches nothing else. -/
theorem applyWrites_unlink (files : ShardFiles) {writes : List Write}
    (h : ∀ write ∈ writes, ∃ unit, write = .unlinkUnit unit) :
    (applyWrites files writes).receipt = files.receipt ∧
      (applyWrites files writes).digestList = files.digestList ∧
      ∀ unit, (applyWrites files writes).units unit = files.units unit ∨
        (applyWrites files writes).units unit = none := by
  induction writes generalizing files with
  | nil => exact ⟨rfl, rfl, fun _ => Or.inl rfl⟩
  | cons write rest ih =>
      obtain ⟨removed, rfl⟩ := h write List.mem_cons_self
      obtain ⟨hreceipt, hlist, hunits⟩ := ih (applyWrite files (.unlinkUnit removed))
        fun w hw => h w (List.mem_cons_of_mem _ hw)
      refine ⟨hreceipt, hlist, fun unit => ?_⟩
      rcases hunits unit with hsame | hnone
      · rw [applyWrites_cons, hsame]
        by_cases hunit : unit = removed
        · exact Or.inr (by rw [hunit]; exact Function.update_self ..)
        · exact Or.inl (Function.update_of_ne hunit ..)
      · exact Or.inr hnone

/-! ## What the loop over the units reads -/

theorem aggregateUnit_ok {schedule : Schedule} {units : Int → Option UnitReceipt}
    {acc acc' : Aggregate} {unit : Int}
    (h : aggregateUnit schedule units acc unit = .ok acc') : units unit ≠ none := by
  intro hnone
  unfold aggregateUnit at h
  rw [hnone] at h
  cases h

/-- A loop that goes through has found every unit receipt. -/
theorem foldlM_present {schedule : Schedule} {units : Int → Option UnitReceipt} {range : List Int}
    {acc acc' : Aggregate}
    (h : range.foldlM (aggregateUnit schedule units) acc = .ok acc') :
    ∀ unit ∈ range, units unit ≠ none := by
  induction range generalizing acc with
  | nil => intro unit hunit; cases hunit
  | cons first rest ih =>
      rw [List.foldlM_cons, bind_ok] at h
      obtain ⟨middle, hfirst, hrest⟩ := h
      intro unit hunit
      rcases List.mem_cons.mp hunit with rfl | hunit
      · exact aggregateUnit_ok hfirst
      · exact ih hrest unit hunit

/-- The loop reads the receipts of its units and no others. -/
theorem foldlM_congr {schedule : Schedule} {units units' : Int → Option UnitReceipt}
    {range : List Int} (h : ∀ unit ∈ range, units unit = units' unit) (acc : Aggregate) :
    range.foldlM (aggregateUnit schedule units) acc =
      range.foldlM (aggregateUnit schedule units') acc := by
  induction range generalizing acc with
  | nil => rfl
  | cons first rest ih =>
      have hfirst : aggregateUnit schedule units acc first =
          aggregateUnit schedule units' acc first := by
        unfold aggregateUnit
        rw [h first List.mem_cons_self]
      rw [List.foldlM_cons, List.foldlM_cons, hfirst]
      exact congrArg _ (funext fun acc' =>
        ih (fun unit hunit => h unit (List.mem_cons_of_mem first hunit)) acc')

/-! ## What is built -/

theorem merkleRoot_eq_sha256Hex {leaves : List Text} {root : Text}
    (h : merkleRoot leaves = .ok root) : ∃ bytes, root = sha256Hex bytes := by
  simp only [merkleRoot, bind_ok] at h
  obtain ⟨_, _, bytes, _, hroot⟩ := h
  split at hroot
  · rename_i first rest hreduce
    rw [pure_ok] at hroot
    obtain ⟨msg, hmsg⟩ : ∃ msg, first = Sha256.digest msg := by
      have hnode : ∀ x y, ∃ msg, merkleNode x y = Sha256.digest msg := fun _ _ => ⟨_, rfl⟩
      have hleaf : ∀ x ∈ bytes.map fun leaf => Sha256.digest (MERKLE_LEAF_DOMAIN ++ leaf),
          ∃ msg, x = Sha256.digest msg := by
        intro x hx
        obtain ⟨leaf, _, rfl⟩ := List.mem_map.mp hx
        exact ⟨_, rfl⟩
      have hmem : first ∈ first :: rest := List.mem_cons_self
      rw [← hreduce] at hmem
      exact MerkleTree.forall_mem_reduce hnode (fun last => hnode last last) hleaf first hmem
    exact ⟨msg, by rw [← hroot, hmsg]; rfl⟩
  · cases hroot

theorem fits_shardSemantic {shard : ShardReceipt} (flag : Bool)
    (h : Json.fits (shardSemantic shard) = true) :
    Json.fits (shardSemantic { shard with unitsPruned := flag }) = true := by
  have hbool : ∀ b : Bool, Json.fits (.bool b) = true := fun _ => rfl
  simp only [shardSemantic, Json.fits_object, List.mem_cons, List.not_mem_nil, or_false,
    forall_eq_or_imp, forall_eq, hbool] at h ⊢
  exact h

/-- **What `seal_shard` builds.** The receipt passes its own validation, and with another prune
flag the receipt differs in the flag and the digest only. -/
theorem buildShard_ok {schedule : Schedule} {shardIndex firstUnit upperUnit : Int}
    {acc : Aggregate} {pruneUnits : Bool} {shard : ShardReceipt}
    (hrange : schedule.shardUnitRange shardIndex = .ok (firstUnit, upperUnit))
    (h : buildShard schedule shardIndex firstUnit upperUnit acc pruneUnits = .ok shard) :
    shard.unitsPruned = pruneUnits ∧
      validateShardReceipt shard schedule shardIndex = .ok () ∧
      Json.Clean (shardSemantic shard) ∧
      digest SHARD_DOMAIN (shardSemantic shard) = .ok shard.shardSha256 ∧
      ∀ flag, ∃ hash,
        digest SHARD_DOMAIN (shardSemantic { shard with unitsPruned := flag }) = .ok hash ∧
        buildShard schedule shardIndex firstUnit upperUnit acc flag =
          .ok { shard with unitsPruned := flag, shardSha256 := hash } := by
  unfold buildShard at h
  split at h
  · rename_i firstCount lastCount hfirst hlast
    simp only [bind_ok, raiseIf_ok, pure_ok, Prod.exists] at h
    obtain ⟨_, htotal, firstBlock, firstUpper, hfirstBlock, lastBlock, upperBlock, hupperBlock,
      root, hroot, hash, hhash, rfl⟩ := h
    obtain ⟨rootBytes, hrootHex⟩ := merkleRoot_eq_sha256Hex hroot
    have hhashHex : isHex64 hash = true := by
      simp only [digest, bind_ok, pure_ok] at hhash
      obtain ⟨bytes, _, rfl⟩ := hhash
      exact isHex64_sha256Hex _
    refine ⟨rfl, ?_, ?_, hhash, fun flag => ?_⟩
    · simp only [validateShardReceipt, bind_ok, raiseIf_ok, Prod.exists]
      exact ⟨(), not_not.mpr rfl, firstUnit, upperUnit, hrange, firstBlock, firstUpper, hfirstBlock,
        lastBlock, upperBlock, hupperBlock, (), not_not.mpr ⟨rfl, rfl, rfl, rfl, rfl, rfl, rfl, rfl,
          rfl, rfl, rfl, rfl, rfl, rfl, rfl⟩, (), htotal, (),
        by rw [hrootHex, isHex64_sha256Hex]; decide, (), by rw [hhashHex]; decide, hash, hhash,
        not_not.mpr rfl⟩
    · have hstr : ∀ bytes, (sha256Hex bytes).Encodable := fun _ => Text.encodable_ofString _
      simp only [shardSemantic, Json.clean_object, List.mem_cons, List.not_mem_nil, or_false,
        forall_eq_or_imp, forall_eq, Json.Clean, true_and, and_true]
      exact ⟨Text.encodable_ofString _, schedule.encodable_scheduleSha256,
        by rw [hrootHex]; exact hstr _, schedule.encodable_runnerSha256, Text.encodable_ofString _⟩
    · obtain ⟨hash', hhash'⟩ := digest_isOk.mpr
        (fits_shardSemantic flag (digest_isOk.mp ⟨hash, hhash⟩))
      refine ⟨hash', hhash', ?_⟩
      unfold buildShard
      rw [hfirst, hlast]
      simp only [bind_ok, raiseIf_ok, pure_ok, Prod.exists]
      exact ⟨(), htotal, firstBlock, firstUpper, hfirstBlock, lastBlock, upperBlock, hupperBlock,
        root, hroot, hash', hhash', rfl⟩
  · cases h

/-! ## Histories -/

/-- The files a history of sealing calls leaves behind, and the first receipt that was written.
Every call is stopped after some number of its writes, or after all of them. -/
inductive SealHistory (schedule : Schedule) (shardIndex : Int) :
    ShardFiles → Option ShardReceipt → Prop
  | first {files pruneUnits shard writes} (stop : Nat) :
      files.receipt = none → files.digestList = none →
      sealShard schedule files shardIndex pruneUnits = .ok (shard, writes) →
      SealHistory schedule shardIndex (applyWrites files (writes.take stop))
        (applyWrites files (writes.take stop)).receipt
  | again {files sealed pruneUnits shard writes} (stop : Nat) :
      SealHistory schedule shardIndex files sealed →
      sealShard schedule files shardIndex pruneUnits = .ok (shard, writes) →
      SealHistory schedule shardIndex (applyWrites files (writes.take stop))
        (sealed.or (applyWrites files (writes.take stop)).receipt)

/-- Sealing again goes through: it returns a receipt with the digest of the first one, and leaves
the receipt and the list that are there as they are. -/
def Reseals (schedule : Schedule) (shardIndex : Int) (files : ShardFiles)
    (sealed : Option ShardReceipt) (pruneUnits : Bool) : Prop :=
  ∃ shard writes, sealShard schedule files shardIndex pruneUnits = .ok (shard, writes) ∧
    (∀ first ∈ sealed, shard.shardSha256 = first.shardSha256) ∧
    (∀ retained ∈ files.receipt, (applyWrites files writes).receipt = some retained) ∧
    (∀ leaves ∈ files.digestList, (applyWrites files writes).digestList = some leaves)

/-- **The invariant of a history.** The unit receipts of the first call are there until a receipt
is written; the list and the receipt are what that call built. -/
structure SealInv (schedule : Schedule) (shardIndex : Int) (files : ShardFiles)
    (sealed : Option ShardReceipt) (firstUnit upperUnit : Int) (units : Int → Option UnitReceipt)
    (acc : Aggregate) (shard : ShardReceipt) : Prop where
  range : schedule.shardUnitRange shardIndex = .ok (firstUnit, upperUnit)
  aggregated : (unitRange firstUnit upperUnit).foldlM (aggregateUnit schedule units)
    Aggregate.empty = .ok acc
  built : buildShard schedule shardIndex firstUnit upperUnit acc shard.unitsPruned = .ok shard
  digestList : ∀ leaves ∈ files.digestList, leaves = acc.leaves
  receipt : ∀ retained ∈ files.receipt, retained = shard ∧ files.digestList = some acc.leaves
  sealed_eq : sealed = files.receipt
  units_kept : files.receipt = none → files.units = units
  units_left : ∀ unit, files.units unit = units unit ∨ files.units unit = none

variable {schedule : Schedule} {shardIndex : Int} {files : ShardFiles}
  {sealed : Option ShardReceipt} {pruneUnits : Bool}

/-- A call that goes through, step by step. -/
theorem sealShard_ok {shard : ShardReceipt} {writes : List Write}
    (h : sealShard schedule files shardIndex pruneUnits = .ok (shard, writes)) :
    ∃ firstUnit upperUnit acc built,
      schedule.shardUnitRange shardIndex = .ok (firstUnit, upperUnit) ∧
      (unitRange firstUnit upperUnit).foldlM (aggregateUnit schedule files.units)
        Aggregate.empty = .ok acc ∧
      buildShard schedule shardIndex firstUnit upperUnit acc pruneUnits = .ok built ∧
      (files.receipt = none ∧ shard = built ∧
          writes = sealWrites firstUnit upperUnit acc built pruneUnits ∨
        ∃ retained, files.receipt = some retained ∧
          validateShardReceipt retained schedule shardIndex = .ok () ∧
          retained.shardSha256 = built.shardSha256 ∧ shard = retained ∧ writes = []) := by
  simp only [sealShard, bind_ok, Prod.exists] at h
  obtain ⟨firstUnit, upperUnit, hrange, acc, hacc, built, hbuilt, hend⟩ := h
  refine ⟨firstUnit, upperUnit, acc, built, hrange, hacc, hbuilt, ?_⟩
  split at hend
  · rename_i retained hretained
    simp only [bind_ok, raiseIf_ok, pure_ok, Prod.mk.injEq, not_not] at hend
    obtain ⟨_, hvalid, _, hsame, rfl, rfl⟩ := hend
    exact Or.inr ⟨retained, hretained, hvalid, hsame, rfl, rfl⟩
  · rename_i hnone
    rw [pure_ok, Prod.mk.injEq] at hend
    exact Or.inl ⟨hnone, hend.1.symm, hend.2.symm⟩

/-- A call that finds no receipt. -/
theorem sealShard_fresh {firstUnit upperUnit : Int} {acc : Aggregate} {built : ShardReceipt}
    (hrange : schedule.shardUnitRange shardIndex = .ok (firstUnit, upperUnit))
    (hacc : (unitRange firstUnit upperUnit).foldlM (aggregateUnit schedule files.units)
      Aggregate.empty = .ok acc)
    (hbuilt : buildShard schedule shardIndex firstUnit upperUnit acc pruneUnits = .ok built)
    (hnone : files.receipt = none) :
    sealShard schedule files shardIndex pruneUnits =
      .ok (built, sealWrites firstUnit upperUnit acc built pruneUnits) := by
  simp only [sealShard, bind_ok, Prod.exists]
  refine ⟨firstUnit, upperUnit, hrange, acc, hacc, built, hbuilt, ?_⟩
  rw [hnone]
  rfl

/-- A call that finds a receipt with the digest it has computed. -/
theorem sealShard_retained {firstUnit upperUnit : Int} {acc : Aggregate}
    {built retained : ShardReceipt}
    (hrange : schedule.shardUnitRange shardIndex = .ok (firstUnit, upperUnit))
    (hacc : (unitRange firstUnit upperUnit).foldlM (aggregateUnit schedule files.units)
      Aggregate.empty = .ok acc)
    (hbuilt : buildShard schedule shardIndex firstUnit upperUnit acc pruneUnits = .ok built)
    (hretained : files.receipt = some retained)
    (hvalid : validateShardReceipt retained schedule shardIndex = .ok ())
    (hsame : retained.shardSha256 = built.shardSha256) :
    sealShard schedule files shardIndex pruneUnits = .ok (retained, []) := by
  simp only [sealShard, bind_ok, Prod.exists]
  refine ⟨firstUnit, upperUnit, hrange, acc, hacc, built, hbuilt, ?_⟩
  rw [hretained]
  simp only [bind_ok, raiseIf_ok, pure_ok]
  exact ⟨(), hvalid, (), not_not.mpr hsame, trivial⟩

/-- After their list and their receipt, the writes of a call only remove unit receipts. -/
theorem sealWrites_unlink {firstUnit upperUnit : Int} {write : Write}
    (h : write ∈ if pruneUnits then (unitRange firstUnit upperUnit).map Write.unlinkUnit else []) :
    ∃ unit, write = .unlinkUnit unit := by
  cases pruneUnits with
  | false => cases h
  | true =>
      obtain ⟨unit, _, rfl⟩ := List.mem_map.mp h
      exact ⟨unit, rfl⟩

/-- **One call keeps the invariant, wherever it is stopped.** -/
theorem sealInv_step {firstUnit upperUnit : Int} {units : Int → Option UnitReceipt}
    {acc : Aggregate} {shard : ShardReceipt}
    (hinv : SealInv schedule shardIndex files sealed firstUnit upperUnit units acc shard)
    {result : ShardReceipt} {writes : List Write}
    (h : sealShard schedule files shardIndex pruneUnits = .ok (result, writes)) (stop : Nat) :
    ∃ shard', SealInv schedule shardIndex (applyWrites files (writes.take stop))
      (sealed.or (applyWrites files (writes.take stop)).receipt) firstUnit upperUnit units acc
      shard' := by
  obtain ⟨first', upper', acc', built, hrange, hacc, hbuilt, hcase⟩ := sealShard_ok h
  obtain ⟨rfl, rfl⟩ : first' = firstUnit ∧ upper' = upperUnit := by
    rw [hinv.range, Except.ok.injEq, Prod.mk.injEq] at hrange
    exact ⟨hrange.1.symm, hrange.2.symm⟩
  rcases hcase with ⟨hnone, rfl, rfl⟩ | ⟨retained, hretained, _, _, _, rfl⟩
  · -- nothing was sealed yet, so the unit receipts are those of the first call
    have hunits := hinv.units_kept hnone
    rw [hunits, hinv.aggregated, Except.ok.injEq] at hacc
    subst hacc
    have hsealed : sealed = none := hinv.sealed_eq.trans hnone
    have hflag := (buildShard_ok hrange hbuilt).1
    rw [hsealed, Option.none_or]
    match stop with
    | 0 =>
        exact ⟨shard, { hinv with sealed_eq := rfl }⟩
    | 1 =>
        refine ⟨shard, hinv.range, hinv.aggregated, hinv.built, ?_, ?_, rfl, fun _ => hunits,
          fun unit => Or.inl (congrFun hunits unit)⟩
        · rintro leaves ⟨⟩
          rfl
        · intro retained hretained
          rw [show (applyWrites files _).receipt = files.receipt from rfl, hnone] at hretained
          cases hretained
    | stop + 2 =>
        have hunlink : ∀ write ∈ (if pruneUnits then
            (unitRange first' upper').map Write.unlinkUnit else []).take stop,
            ∃ unit, write = .unlinkUnit unit :=
          fun write hwrite => sealWrites_unlink (List.mem_of_mem_take hwrite)
        obtain ⟨hreceipt, hlist, hleft⟩ := applyWrites_unlink
          (applyWrite (applyWrite files (.digestList acc.leaves)) (.receipt result)) hunlink
        rw [sealWrites, List.take_succ_cons, List.take_succ_cons, applyWrites_cons, applyWrites_cons]
        refine ⟨result, hinv.range, hinv.aggregated, by rw [hflag]; exact hbuilt, ?_, ?_, rfl, ?_,
          fun unit => ?_⟩
        · intro leaves hleaves
          have hsome : some acc.leaves = some leaves := hlist.symm.trans hleaves
          exact (Option.some.inj hsome).symm
        · intro retained hretained
          have hsome : some result = some retained := hreceipt.symm.trans hretained
          exact ⟨(Option.some.inj hsome).symm, hlist⟩
        · intro hgone
          have hsome : some result = none := hreceipt.symm.trans hgone
          cases hsome
        · rw [← hunits]
          exact hleft unit
  · -- a receipt is there, so the call writes nothing
    rw [List.take_nil, applyWrites_nil, hinv.sealed_eq, Option.or_self]
    exact ⟨shard, { hinv with sealed_eq := rfl }⟩

/-- **Every history keeps the invariant.** -/
theorem sealInv_history (h : SealHistory schedule shardIndex files sealed) :
    ∃ firstUnit upperUnit units acc shard,
      SealInv schedule shardIndex files sealed firstUnit upperUnit units acc shard := by
  induction h with
  | @first files pruneUnits shard writes stop hnone hlist hseal =>
      obtain ⟨firstUnit, upperUnit, acc, built, hrange, hacc, hbuilt, _⟩ := sealShard_ok hseal
      have hfresh : SealInv schedule shardIndex files none firstUnit upperUnit files.units acc
          built :=
        { range := hrange
          aggregated := hacc
          built := by rw [(buildShard_ok hrange hbuilt).1]; exact hbuilt
          digestList := by rw [hlist]; intro leaves hleaves; cases hleaves
          receipt := by rw [hnone]; intro retained hretained; cases hretained
          sealed_eq := hnone.symm
          units_kept := fun _ => rfl
          units_left := fun _ => Or.inl rfl }
      obtain ⟨shard', hinv⟩ := sealInv_step hfresh hseal stop
      exact ⟨firstUnit, upperUnit, files.units, acc, shard', hinv⟩
  | again stop _ hseal ih =>
      obtain ⟨firstUnit, upperUnit, units, acc, shard, hinv⟩ := ih
      obtain ⟨shard', hinv'⟩ := sealInv_step hinv hseal stop
      exact ⟨firstUnit, upperUnit, units, acc, shard', hinv'⟩

/-! ## When sealing again goes through -/

/-- The texts of a receipt with either prune flag are two messages with one SHA-256. -/
def FlagCollision (shard : ShardReceipt) (pruneUnits : Bool) : Prop :=
  ∃ bytes bytes', canonical (shardSemantic shard) = .ok bytes ∧
    canonical (shardSemantic { shard with unitsPruned := pruneUnits }) = .ok bytes' ∧
    bytes ≠ bytes' ∧
    Sha256.digest (SHARD_DOMAIN ++ bytes) = Sha256.digest (SHARD_DOMAIN ++ bytes')

/-- All unit receipts of the shard are there, and a receipt that is there was built with the same
prune flag. -/
def Resealable (schedule : Schedule) (shardIndex : Int) (files : ShardFiles)
    (pruneUnits : Bool) : Prop :=
  (∀ firstUnit upperUnit, schedule.shardUnitRange shardIndex = .ok (firstUnit, upperUnit) →
    ∀ unit ∈ unitRange firstUnit upperUnit, files.units unit ≠ none) ∧
  ∀ retained ∈ files.receipt,
    retained.unitsPruned = pruneUnits ∨ FlagCollision retained pruneUnits

/-- Different flags make different texts. -/
theorem canonical_flag_ne {shard : ShardReceipt} {flag : Bool} {bytes bytes' : Bytes}
    (hclean : Json.Clean (shardSemantic shard)) (hflag : shard.unitsPruned ≠ flag)
    (h : canonical (shardSemantic shard) = .ok bytes)
    (h' : canonical (shardSemantic { shard with unitsPruned := flag }) = .ok bytes') :
    bytes ≠ bytes' := by
  rintro rfl
  have hascii : ∀ {value : Json}, canonical value = .ok bytes → Json.asciiBytes value = .ok bytes := by
    intro value hvalue
    unfold canonical at hvalue
    split at hvalue
    · rename_i bytes' hbytes
      rw [Except.ok.injEq] at hvalue
      rw [hbytes, hvalue]
    · cases hvalue
  have hclean' : Json.Clean (shardSemantic { shard with unitsPruned := flag }) := by
    rw [shardSemantic, Json.clean_object] at hclean ⊢
    simp only [List.mem_cons, List.not_mem_nil, or_false, forall_eq_or_imp, forall_eq,
      Json.Clean] at hclean ⊢
    exact hclean
  have hsorted := Json.asciiBytes_injective hclean hclean' (hascii h) (hascii h')
  have hagree : Json.sortKeys (.bool shard.unitsPruned) = Json.sortKeys (.bool flag) := by
    refine @Json.object_agree _ _ "units_pruned" _ _ hsorted (by simp) fun w hw => ?_
    simpa using hw
  exact hflag (by simpa [Json.sortKeys] using hagree)

theorem sha256Hex_injective {bytes bytes' : Bytes} (h : sha256Hex bytes = sha256Hex bytes') :
    Sha256.digest bytes = Sha256.digest bytes' :=
  Bytes.hex_injective (Text.ofString_injective h)

/-- With the same digest of both texts the flag makes no difference to the digest. -/
theorem digest_flag_eq {shard : ShardReceipt} {pruneUnits : Bool} {hash : Text}
    (hdigest : digest SHARD_DOMAIN (shardSemantic shard) = .ok shard.shardSha256)
    (hhash : digest SHARD_DOMAIN (shardSemantic { shard with unitsPruned := pruneUnits }) =
      .ok hash) (hclean : Json.Clean (shardSemantic shard)) :
    shard.shardSha256 = hash ↔ shard.unitsPruned = pruneUnits ∨ FlagCollision shard pruneUnits := by
  simp only [digest, bind_ok, pure_ok] at hdigest hhash
  obtain ⟨bytes, hbytes, hsha⟩ := hdigest
  obtain ⟨bytes', hbytes', rfl⟩ := hhash
  rw [← hsha]
  constructor
  · intro hsame
    by_cases hflag : shard.unitsPruned = pruneUnits
    · exact Or.inl hflag
    · exact Or.inr ⟨bytes, bytes', hbytes, hbytes', canonical_flag_ne hclean hflag hbytes hbytes',
        sha256Hex_injective hsame⟩
  · rintro (rfl | ⟨b, b', hb, hb', _, hcollision⟩)
    · rw [Except.ok.inj (hbytes.symm.trans hbytes')]
    · rw [Except.ok.inj (hbytes.symm.trans hb), Except.ok.inj (hbytes'.symm.trans hb'), sha256Hex,
        sha256Hex, Sha256.hexdigest, Sha256.hexdigest, hcollision]

/-- **Sealing again goes through exactly when nothing it reads is gone and the flags agree.** -/
theorem reseals_iff (h : SealHistory schedule shardIndex files sealed) (pruneUnits : Bool) :
    Reseals schedule shardIndex files sealed pruneUnits ↔
      Resealable schedule shardIndex files pruneUnits := by
  obtain ⟨firstUnit, upperUnit, units, acc, shard, hinv⟩ := sealInv_history h
  obtain ⟨_, hvalid, hclean, hdigest, hbuild⟩ := buildShard_ok hinv.range hinv.built
  obtain ⟨hash, hhash, hrebuilt⟩ := hbuild pruneUnits
  have hflags := digest_flag_eq hdigest hhash hclean
  -- while all unit receipts are there, they are those of the first call
  have haggregated : (∀ unit ∈ unitRange firstUnit upperUnit, files.units unit ≠ none) →
      (unitRange firstUnit upperUnit).foldlM (aggregateUnit schedule files.units)
        Aggregate.empty = .ok acc := by
    intro hpresent
    refine (foldlM_congr (fun unit hunit => ?_) Aggregate.empty).trans hinv.aggregated
    exact (hinv.units_left unit).resolve_right (hpresent unit hunit)
  constructor
  · rintro ⟨result, writes, hseal, _⟩
    obtain ⟨first', upper', acc', built, hrange, hacc, hbuilt, hcase⟩ := sealShard_ok hseal
    obtain ⟨rfl, rfl⟩ : first' = firstUnit ∧ upper' = upperUnit := by
      rw [hinv.range, Except.ok.injEq, Prod.mk.injEq] at hrange
      exact ⟨hrange.1.symm, hrange.2.symm⟩
    have hpresent := foldlM_present hacc
    refine ⟨fun first'' upper'' hrange' => ?_, fun retained hretained => ?_⟩
    · rw [hrange, Except.ok.injEq, Prod.mk.injEq] at hrange'
      rw [← hrange'.1, ← hrange'.2]
      exact hpresent
    · obtain rfl := (hinv.receipt retained hretained).1
      rcases hcase with ⟨hnone, _⟩ | ⟨retained', hretained', _, hsame, _⟩
      · rw [hnone] at hretained
        cases hretained
      · obtain rfl : retained' = retained := Option.some.inj (hretained'.symm.trans hretained)
        rw [haggregated hpresent, Except.ok.injEq] at hacc
        rw [← hacc, hrebuilt, Except.ok.injEq] at hbuilt
        rw [← hbuilt] at hsame
        exact hflags.mp hsame
  · rintro ⟨hpresent, hagree⟩
    have hacc := haggregated (hpresent firstUnit upperUnit hinv.range)
    cases hreceipt : files.receipt with
    | none =>
        refine ⟨_, _, sealShard_fresh hinv.range hacc hrebuilt hreceipt, ?_, ?_, ?_⟩
        · rw [hinv.sealed_eq, hreceipt]
          intro first hfirst
          cases hfirst
        · intro retained hretained
          rw [hreceipt] at hretained
          cases hretained
        · intro leaves hleaves
          rw [hinv.digestList leaves hleaves]
          exact (applyWrites_unlink _ fun _ => sealWrites_unlink).2.1
    | some retained =>
        obtain ⟨rfl, _⟩ := hinv.receipt retained hreceipt
        refine ⟨retained, [], sealShard_retained hinv.range hacc hrebuilt hreceipt hvalid
          (hflags.mpr (hagree retained hreceipt)), ?_, ?_, ?_⟩
        · rw [hinv.sealed_eq, hreceipt]
          intro first hfirst
          rw [Option.some.inj hfirst]
        · rw [applyWrites_nil, hreceipt]
          exact fun _ h => h
        · exact fun _ h => h

/-! ## A shard of one unit -/

/-- The files of the one shard before it is sealed. -/
def oneUnitFiles (receipt : UnitReceipt) : ShardFiles where
  units := Function.update (fun _ => none) 0 (some receipt)
  digestList := none
  receipt := none

theorem fromHex_sha256Hex (bytes : Bytes) : fromHex (sha256Hex bytes) = .ok (Sha256.digest bytes) := by
  unfold fromHex
  rw [sha256Hex, Text.map_toChar_ofString, Sha256.hexdigest, Bytes.ofHexChars_hex]

theorem merkleRoot_single (bytes : Bytes) : ∃ root, merkleRoot [sha256Hex bytes] = .ok root := by
  simp only [merkleRoot, bind_ok, raiseIf_ok, List.mapM_cons, List.mapM_nil, pure_ok,
    fromHex_sha256Hex]
  exact ⟨_, (), by simp, [Sha256.digest bytes], ⟨Sha256.digest bytes, rfl, [], rfl, rfl⟩, rfl⟩

/-- A shard of one unit whose counts are small can be sealed with either flag. -/
theorem singleUnit_seals {schedule : Schedule} {receipt : UnitReceipt} {unitBytes : Bytes}
    (hrange : schedule.shardUnitRange 0 = .ok (0, 1))
    (hblocks : schedule.unitBlockRange 0 = .ok (0, 1))
    (hvalid : validateUnitReceipt receipt schedule 0 = .ok ())
    (hfirst : receipt.firstCount.natAbs < 2 ^ 64) (hlast : receipt.lastCount.natAbs < 2 ^ 64)
    (htotal : receipt.totalZeroCount.natAbs < 2 ^ 64)
    (htelescope : receipt.lastCount - receipt.firstCount = receipt.totalZeroCount)
    (hunit : receipt.unitSha256 = sha256Hex unitBytes) (pruneUnits : Bool) :
    ∃ acc shard, shard.unitsPruned = pruneUnits ∧
      sealShard schedule (oneUnitFiles receipt) 0 pruneUnits =
        .ok (shard, sealWrites 0 1 acc shard pruneUnits) := by
  obtain ⟨acc, hacc, haccFirst, haccLast, haccTotal, haccLeaves⟩ : ∃ acc,
      (unitRange 0 1).foldlM (aggregateUnit schedule (oneUnitFiles receipt).units)
        Aggregate.empty = .ok acc ∧
      acc.firstCount = some receipt.firstCount ∧ acc.lastCount = some receipt.lastCount ∧
      acc.total = receipt.totalZeroCount ∧ acc.leaves = [receipt.unitSha256] := by
    have hunits : unitRange 0 1 = [0] := rfl
    have hthere : (oneUnitFiles receipt).units 0 = some receipt := by simp [oneUnitFiles]
    rw [hunits]
    simp only [List.foldlM_cons, List.foldlM_nil, bind_ok, aggregateUnit, hthere, raiseIf_ok,
      pure_ok]
    exact ⟨_, ⟨_, ⟨(), hvalid, (), by simp [Aggregate.empty], (), by simp [Aggregate.empty], rfl⟩,
      rfl⟩, rfl, rfl, by simp [Aggregate.empty], by simp [Aggregate.empty]⟩
  obtain ⟨root, hroot⟩ := merkleRoot_single unitBytes
  rw [← hunit, ← haccLeaves] at hroot
  obtain ⟨shard, hshard⟩ : ∃ shard, buildShard schedule 0 0 1 acc pruneUnits = .ok shard := by
    have hword : ∀ n : Int, n.natAbs < 2 ^ 64 → Json.fits (.int n) = true := fun _ =>
      Json.fits_int_of_word
    unfold buildShard
    rw [haccFirst, haccLast]
    simp only [bind_ok, raiseIf_ok, pure_ok, Prod.exists]
    refine ⟨_, (), not_not.mpr (by rw [haccTotal]; exact htelescope), 0, 1, hblocks, 0, 1, hblocks,
      root, hroot, _, (digest_isOk.mpr ?_).choose_spec, rfl⟩
    simp only [shardSemantic, Json.fits_object, List.mem_cons, List.not_mem_nil, or_false,
      forall_eq_or_imp, forall_eq, haccTotal]
    refine ⟨rfl, rfl, ?_, ?_, ?_, ?_, ?_, ?_, ?_, ?_, ?_, hword _ hfirst, hword _ hlast,
      hword _ htotal, rfl, rfl, rfl, rfl, rfl, rfl, rfl⟩
    all_goals exact hword _ (by decide)
  exact ⟨acc, shard, (buildShard_ok hrange hshard).1,
    sealShard_fresh hrange hacc hshard rfl⟩

/-- The one block can be sealed with either flag. -/
theorem oneUnit_seals (pruneUnits : Bool) : ∃ receipt acc shard, shard.unitsPruned = pruneUnits ∧
    sealShard oneBlock (oneUnitFiles receipt) 0 pruneUnits =
      .ok (shard, sealWrites 0 1 acc shard pruneUnits) := by
  obtain ⟨receipt, hbuilt, hfirst, hlast, htotal, hunit⟩ :=
    oneBlock_built (show 5 < 2 ^ 32 by decide) []
  refine ⟨receipt, singleUnit_seals rfl rfl (buildUnitReceipt_valid hbuilt) ?_ ?_ ?_ ?_ hunit
    pruneUnits⟩
  all_goals simp [hfirst, hlast, htotal]

/-- Sealed without pruning, the one block is sealed again without pruning. -/
theorem reseals_iff_oneBlock : ∃ files sealed, SealHistory oneBlock 0 files sealed ∧
    Reseals oneBlock 0 files sealed false := by
  obtain ⟨receipt, acc, shard, hflag, hseal⟩ := oneUnit_seals false
  have hhistory := SealHistory.first 2 rfl rfl hseal
  refine ⟨_, _, hhistory, (reseals_iff hhistory false).mpr ⟨?_, ?_⟩⟩
  · intro firstUnit upperUnit hrange unit hunit
    have hrange' : oneBlock.shardUnitRange 0 = .ok (0, 1) := rfl
    rw [hrange', Except.ok.injEq, Prod.mk.injEq] at hrange
    obtain ⟨rfl, rfl⟩ := hrange
    have hzero : unit = 0 := by simpa [unitRange] using hunit
    rw [hzero]
    simp [sealWrites, applyWrite, oneUnitFiles]
  · intro retained hretained
    have hsame : shard = retained := by simpa [sealWrites, applyWrite] using hretained
    exact Or.inl (hsame ▸ hflag)

/-- Sealed with pruning, the one block cannot be sealed again: its unit receipt is gone. -/
theorem pruned_not_resealed : ∃ files sealed, SealHistory oneBlock 0 files sealed ∧
    ∀ pruneUnits, ¬ Reseals oneBlock 0 files sealed pruneUnits := by
  obtain ⟨receipt, acc, shard, _, hseal⟩ := oneUnit_seals true
  refine ⟨_, _, SealHistory.first 3 rfl rfl hseal, ?_⟩
  intro pruneUnits hreseals
  obtain ⟨_, _, hagain, _⟩ := hreseals
  obtain ⟨firstUnit, upperUnit, _, _, hrange, hloop, _⟩ := sealShard_ok hagain
  have hrange' : oneBlock.shardUnitRange 0 = .ok (0, 1) := rfl
  rw [hrange', Except.ok.injEq, Prod.mk.injEq] at hrange
  obtain ⟨rfl, rfl⟩ := hrange
  have hzero : (0 : Int) ∈ unitRange 0 1 := by simp [unitRange]
  refine foldlM_present hloop 0 hzero ?_
  simp [sealWrites, unitRange, applyWrite]

end AttestedCompute.Platt
