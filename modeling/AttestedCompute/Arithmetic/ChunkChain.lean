import AttestedCompute.Arithmetic.ChunkRecord
import AttestedCompute.Lib.Threaded
import AttestedCompute.Receipt.Sha256Eval

/-!
# Chains of chunk records

`verify_chunk_chain` walks a list of records once and compares each with the one before
it. Three things are threaded through an accepted chain: the range, the state and the
hash. The ranges go up, so they partition the range that is reported; the hash runs
backwards from the last record, so it fixes every record of the shorter of two chains
that end alike. It does not fix where a chain starts: the predecessor hash of the first
record is an argument of the verifier, and the tail of an accepted chain is accepted from
the hash it follows.
-/

namespace AttestedCompute.Arithmetic

open Fallible
open Receipt.NatSha256 (hexdigest_eq_hashWords)

/-- The keyword arguments of `verify_chunk_chain`. -/
structure ChainOptions where
  payloads : Option (List Bytes) := none
  expectedAlgorithm : Option Text := none
  expectedConstantsDigest : Option Text := none
  expectedLo : Option Int := none
  expectedHi : Option Int := none
  expectedInitialState : Option (List Int) := none
  expectedFinalState : Option (List Int) := none
  expectedPreviousHash : Text := ZERO_SHA256

/-- Coverage and final-state summary returned by a successful check. -/
structure ChainVerification where
  algorithm : Text
  lo : Int
  hi : Int
  chunks : Nat
  constantsDigest : Text
  finalState : List Int
  finalHash : Text
  deriving DecidableEq

/-- An argument that was given has to be the value that was found. -/
def requireExpected {α : Type} [DecidableEq α] (expected : Option α) (found : α)
    (e : ChunkVerificationError) : Checked Unit :=
  match expected with
  | none => .ok ()
  | some value => refuseIf (found ≠ value) e

def checkExpectedRange (lo hi : Option Int) : Checked Unit :=
  match hi with
  | none => .ok ()
  | some upper => do
      requireInt "expected_hi" upper 0
      match lo with
      | none => .ok ()
      | some lower => refuseIf (upper ≤ lower) .expectedRangeEmpty

/-- The arguments that can be judged before the records are read. -/
def checkOptions (o : ChainOptions) (records : List ChunkRecord) : Checked Unit := do
  requireDigest "expected_previous_hash" o.expectedPreviousHash
  (match o.expectedConstantsDigest with
    | none => .ok ()
    | some digest => requireDigest "expected_constants_digest" digest)
  (match o.payloads with
    | none => .ok ()
    | some payloads => refuseIf (payloads.length ≠ records.length) .payloadCount)
  (match o.expectedLo with
    | none => .ok ()
    | some lower => requireInt "expected_lo" lower 0)
  checkExpectedRange o.expectedLo o.expectedHi

def checkFirst (o : ChainOptions) (first : ChunkRecord) : Checked Unit := do
  validateChunkFields first true
  requireExpected o.expectedAlgorithm first.algorithm .firstAlgorithm
  requireExpected o.expectedConstantsDigest first.constantsDigest .firstConstants
  refuseIf (first.previousHash ≠ o.expectedPreviousHash) .firstPredecessor
  requireExpected o.expectedLo first.lo .firstLower
  requireExpected o.expectedInitialState first.incomingState .firstState

def checkPayload (payloads : Option (List Bytes)) (index : Nat) (record : ChunkRecord) :
    Checked Unit :=
  match payloads with
  | none => .ok ()
  | some payloads =>
      refuseIf (sha256Bytes (payloads.getD index []) ≠ record.payloadDigest) (.payloadDigest index)

def checkLink (index : Nat) (previous : Option ChunkRecord) (record : ChunkRecord) :
    Checked Unit :=
  match previous with
  | none => .ok ()
  | some previous => do
      refuseIf (record.previousHash ≠ previous.recordHash) (.hashLink index)
      refuseIf (record.lo ≠ previous.hi) (.coverage index)
      refuseIf (record.incomingState ≠ previous.outgoingState) (.stateLink index)

/-- One turn of the loop. -/
def checkRecord (o : ChainOptions) (first : ChunkRecord) (index : Nat)
    (previous : Option ChunkRecord) (record : ChunkRecord) : Checked Unit := do
  validateChunkFields record true
  refuseIf (record.algorithm ≠ first.algorithm) (.changesAlgorithm index)
  refuseIf (record.constantsDigest ≠ first.constantsDigest) (.changesConstants index)
  checkPayload o.payloads index record
  checkLink index previous record

/-- The loop: what it returns is its variable `previous`. -/
def walk (o : ChainOptions) (first : ChunkRecord) :
    Nat → Option ChunkRecord → List ChunkRecord → Checked (Option ChunkRecord)
  | _, previous, [] => pure previous
  | index, previous, record :: rest => do
      checkRecord o first index previous record
      walk o first (index + 1) (some record) rest

/-- Validate hashes, payloads, coverage, and exact boundary-state links. -/
def verifyChunkChain (o : ChainOptions) (records : List ChunkRecord) :
    Checked ChainVerification :=
  match records with
  | [] => .error .chainEmpty
  | first :: _ => do
      checkOptions o records
      checkFirst o first
      match ← walk o first 0 none records with
      | none => .error .endedEmpty
      | some last => do
          requireExpected o.expectedHi last.hi .lastUpper
          requireExpected o.expectedFinalState last.outgoingState .lastState
          pure {
            algorithm := first.algorithm
            lo := first.lo
            hi := last.hi
            chunks := records.length
            constantsDigest := first.constantsDigest
            finalState := last.outgoingState
            finalHash := last.recordHash }

/-! ## What an accepted chain is -/

/-- What the loop compares between two records in a row. -/
structure Follows (previous record : ChunkRecord) : Prop where
  hash : record.previousHash = previous.recordHash
  range : record.lo = previous.hi
  state : record.incomingState = previous.outgoingState

/-- An argument was not given, or names this value. -/
def Agrees {α : Type} (expected : Option α) (found : α) : Prop :=
  ∀ value ∈ expected, found = value

/-- **What every accepted chain is.** -/
structure Accepted (o : ChainOptions) (records : List ChunkRecord) (v : ChainVerification) :
    Prop where
  valid : ∀ record ∈ records, ValidRecord record
  linked : records.IsChain Follows
  ranges : Threaded ChunkRecord.lo ChunkRecord.hi v.lo records v.hi
  hashes : Threaded ChunkRecord.previousHash ChunkRecord.recordHash o.expectedPreviousHash records
    v.finalHash
  states : ∃ initial, Agrees o.expectedInitialState initial
    ∧ Threaded ChunkRecord.incomingState ChunkRecord.outgoingState initial records v.finalState
  expectedLo : Agrees o.expectedLo v.lo
  expectedHi : Agrees o.expectedHi v.hi
  expectedFinalState : Agrees o.expectedFinalState v.finalState
  nonempty : records ≠ []

theorem requireExpected_ok {α : Type} [DecidableEq α] {expected : Option α} {found : α}
    {e : ChunkVerificationError} {u : Unit} :
    requireExpected expected found e = .ok u ↔ Agrees expected found := by
  cases expected with
  | none => simp [requireExpected, Agrees]
  | some value => simp [requireExpected, Agrees]

theorem checkRecord_ok {o : ChainOptions} {first record : ChunkRecord} {index : Nat}
    {previous : Option ChunkRecord} (h : checkRecord o first index previous record = .ok ()) :
    ValidRecord record ∧ ∀ p ∈ previous, Follows p record := by
  simp only [checkRecord, bind_ok, refuseIf_ok] at h
  obtain ⟨_, hvalid, _, -, _, -, _, -, hlink⟩ := h
  refine ⟨validRecord_of_ok hvalid, fun p hp => ?_⟩
  rw [Option.mem_def] at hp
  subst hp
  simp only [checkLink, bind_ok, refuseIf_ok, not_not] at hlink
  obtain ⟨_, hhash, _, hrange, hstate⟩ := hlink
  exact ⟨hhash, hrange, hstate⟩

/-- The loop after its first turn: every record is valid and follows the one before it. -/
theorem walk_ok {o : ChainOptions} {first previous : ChunkRecord} {index : Nat}
    {rest : List ChunkRecord} {result : Option ChunkRecord}
    (h : walk o first index (some previous) rest = .ok result) :
    (∀ record ∈ rest, ValidRecord record) ∧ (previous :: rest).IsChain Follows
      ∧ (previous :: rest).getLast? = result := by
  induction rest generalizing index previous with
  | nil =>
      rw [walk, pure_ok] at h
      exact ⟨fun record hr => absurd hr List.not_mem_nil, List.isChain_singleton _, h⟩
  | cons record rest ih =>
      rw [walk, bind_ok] at h
      obtain ⟨_, hrecord, hrest⟩ := h
      obtain ⟨hvalid, hfollows⟩ := checkRecord_ok hrecord
      obtain ⟨hvalids, hchain, hlast⟩ := ih hrest
      refine ⟨fun r hr => ?_, ?_, ?_⟩
      · rcases List.mem_cons.mp hr with rfl | hr
        · exact hvalid
        · exact hvalids r hr
      · exact List.isChain_cons_cons.mpr ⟨hfollows previous rfl, hchain⟩
      · rw [List.getLast?_cons_cons, hlast]

/-- **Everything the verifier establishes.** -/
theorem accepted_of_ok {o : ChainOptions} {records : List ChunkRecord} {v : ChainVerification}
    (h : verifyChunkChain o records = .ok v) : Accepted o records v := by
  cases records with
  | nil => cases h
  | cons first rest =>
      simp only [verifyChunkChain, bind_ok] at h
      obtain ⟨_, -, _, hfirst, last, hwalk, h⟩ := h
      rw [walk, bind_ok] at hwalk
      obtain ⟨_, hrecord, hrest⟩ := hwalk
      obtain ⟨hvalids, hchain, hlast⟩ := walk_ok hrest
      cases last with
      | none => cases h
      | some last =>
          simp only [bind_ok, pure_ok, requireExpected_ok] at h
          obtain ⟨_, hhi, _, hfinal, rfl⟩ := h
          simp only [checkFirst, bind_ok, refuseIf_ok, requireExpected_ok, not_not] at hfirst
          obtain ⟨_, -, _, -, _, -, _, hprevious, _, hlo, hinitial⟩ := hfirst
          have hvalid := (checkRecord_ok hrecord).1
          exact {
            valid := fun r hr => by
              rcases List.mem_cons.mp hr with rfl | hr
              · exact hvalid
              · exact hvalids r hr
            linked := hchain
            ranges := Threaded.of_isChain (hchain.imp fun _ _ hl => hl.range) hlast
            hashes := hprevious ▸ Threaded.of_isChain (hchain.imp fun _ _ hl => hl.hash) hlast
            states := ⟨first.incomingState, hinitial,
              Threaded.of_isChain (hchain.imp fun _ _ hl => hl.state) hlast⟩
            expectedLo := hlo
            expectedHi := hhi
            expectedFinalState := hfinal
            nonempty := by simp }

namespace Accepted

variable {o o' : ChainOptions} {records records' : List ChunkRecord} {v v' : ChainVerification}

theorem goesUp (h : Accepted o records v) : ∀ record ∈ records, record.lo < record.hi :=
  fun record hr => (h.valid record hr).nonempty

theorem lo_eq (h : Accepted o records v) (h' : Accepted o' records v') : v.lo = v'.lo := by
  obtain ⟨record, rest, hrecords⟩ := List.exists_cons_of_ne_nil h.nonempty
  have hlo := h.ranges
  have hlo' := h'.ranges
  rw [hrecords] at hlo hlo'
  exact hlo.1.symm.trans hlo'.1

/-- Chains with one final hash run together backwards. -/
theorem suffix_or_suffix (h : Accepted o records v) (h' : Accepted o' records' v')
    (hinj : Set.InjOn Sha256.digest (committedBodies (records ++ records')))
    (hfinal : v.finalHash = v'.finalHash) : records <:+ records' ∨ records' <:+ records := by
  have hhashes' := h'.hashes
  rw [← hfinal] at hhashes'
  refine h.hashes.suffix_or_suffix hhashes' fun r hr s hs hhash => ?_
  exact eq_of_recordHash (h.valid r hr) (h'.valid s hs) (List.mem_append_left _ hr)
    (List.mem_append_right _ hs) hinj hhash

theorem eq_of_lo (h : Accepted o records v) (h' : Accepted o' records' v')
    (hsuffix : records <:+ records') (hlo : v.lo = v'.lo) : records = records' :=
  Threaded.eq_of_suffix (hlo ▸ h'.ranges) h.ranges h'.goesUp h.nonempty hsuffix

end Accepted

/-- **An accepted chain partitions its range, hands its state on, and is fixed by its last
hash** once it is known where it starts. -/
theorem verifyChunkChain_sound :
    (∀ o records v, verifyChunkChain o records = .ok v →
      records.IsChain (fun r s => s.lo = r.hi ∧ s.incomingState = r.outgoingState)
        ∧ records.Pairwise (fun r s => r.hi ≤ s.lo)
        ∧ (∀ n, (∃ r ∈ records, n ∈ Set.Ico r.lo r.hi) ↔ n ∈ Set.Ico v.lo v.hi)
        ∧ Agrees o.expectedLo v.lo ∧ Agrees o.expectedHi v.hi)
    ∧ ∀ o o' records records' v v', verifyChunkChain o records = .ok v →
        verifyChunkChain o' records' = .ok v' →
        Set.InjOn Sha256.digest (committedBodies (records ++ records')) →
        v.finalHash = v'.finalHash →
        (records <:+ records' ∨ records' <:+ records) ∧ (records = records' ↔ v.lo = v'.lo) := by
  constructor
  · intro o records v h
    have hok := accepted_of_ok h
    exact ⟨hok.linked.imp fun r s hl => ⟨hl.range, hl.state⟩, hok.ranges.pairwise_le hok.goesUp,
      hok.ranges.exists_mem_iff hok.goesUp, hok.expectedLo, hok.expectedHi⟩
  · intro o o' records records' v v' h h' hinj hfinal
    have hok := accepted_of_ok h
    have hok' := accepted_of_ok h'
    have hsuffix := hok.suffix_or_suffix hok' hinj hfinal
    refine ⟨hsuffix, ?_, fun hlo => ?_⟩
    · rintro rfl
      exact hok.lo_eq hok'
    · rcases hsuffix with hs | hs
      · exact hok.eq_of_lo hok' hs hlo
      · exact (hok'.eq_of_lo hok hs hlo.symm).symm

/-! ## The tail of a chain -/

/-- The record of `[lo, lo + 1)` that follows a hash. -/
def unitRecord (lo : Int) (previousHash recordHash : Text) : ChunkRecord where
  schemaVersion := 1
  algorithm := Text.ofString "a"
  lo := lo
  hi := lo + 1
  constantsDigest := ZERO_SHA256
  previousHash := previousHash
  incomingState := []
  outgoingState := []
  summary := []
  payloadDigest := ZERO_SHA256
  recordHash := recordHash

def firstHash : String := "e510d0750968d7dda164f137080612c84385738735669ad278e1ee2f958eeff1"

def secondHash : String := "c53ac4427d16c4ed44b848743962cd6584eb1a5614d3ecf871372531e58fe30c"

def firstUnit : ChunkRecord := unitRecord 0 ZERO_SHA256 (Text.ofString firstHash)

def secondUnit : ChunkRecord := unitRecord 1 (Text.ofString firstHash) (Text.ofString secondHash)

theorem unit_bodies :
    (∃ bytes, firstUnit.canonicalBodyBytes = .ok bytes ∧ Sha256.hexdigest bytes = firstHash)
      ∧ ∃ bytes, secondUnit.canonicalBodyBytes = .ok bytes
        ∧ Sha256.hexdigest bytes = secondHash := by
  refine ⟨⟨firstUnit.body.dumpsAscii.utf8, ?_, ?_⟩, ⟨secondUnit.body.dumpsAscii.utf8, ?_, ?_⟩⟩
  · decide +kernel
  · rw [hexdigest_eq_hashWords]
    decide +kernel
  · decide +kernel
  · rw [hexdigest_eq_hashWords]
    decide +kernel

theorem firstUnit_body : ∃ bytes, firstUnit.canonicalBodyBytes = .ok bytes
    ∧ Sha256.hexdigest bytes = firstHash := unit_bodies.1

theorem secondUnit_body : ∃ bytes, secondUnit.canonicalBodyBytes = .ok bytes
    ∧ Sha256.hexdigest bytes = secondHash := unit_bodies.2

theorem validate_of_hashed {record : ChunkRecord} {bytes : Bytes} {hash : String}
    (hfields : validateChunkFields record false = .ok ())
    (hbytes : record.canonicalBodyBytes = .ok bytes) (hhash : Sha256.hexdigest bytes = hash)
    (hrecord : record.recordHash = Text.ofString hash) :
    validateChunkFields record true = .ok () := by
  have hrecomputed : record.recomputedHash = .ok record.recordHash := by
    rw [ChunkRecord.recomputedHash, hbytes, hrecord, ← hhash]
    rfl
  rw [validateChunkFields_true, bind_ok]
  exact ⟨(), hfields, checkRecordHash_ok.mpr hrecomputed⟩

theorem validate_firstUnit : validateChunkFields firstUnit true = .ok () := by
  obtain ⟨bytes, hbytes, hhash⟩ := firstUnit_body
  exact validate_of_hashed rfl hbytes hhash rfl

theorem validate_secondUnit : validateChunkFields secondUnit true = .ok () := by
  obtain ⟨bytes, hbytes, hhash⟩ := secondUnit_body
  exact validate_of_hashed rfl hbytes hhash rfl

def unitVerification (lo : Int) (chunks : Nat) : ChainVerification where
  algorithm := Text.ofString "a"
  lo := lo
  hi := 2
  chunks := chunks
  constantsDigest := ZERO_SHA256
  finalState := []
  finalHash := Text.ofString secondHash

theorem verify_units : verifyChunkChain {} [firstUnit, secondUnit] = .ok (unitVerification 0 2) := by
  have hfirst : checkFirst {} firstUnit = .ok () := by
    rw [checkFirst, validate_firstUnit]
    rfl
  have hwalk : walk {} firstUnit 0 none [firstUnit, secondUnit] = .ok (some secondUnit) := by
    simp only [walk, checkRecord, validate_firstUnit, validate_secondUnit]
    rfl
  simp only [verifyChunkChain, bind_ok]
  exact ⟨(), rfl, (), hfirst, some secondUnit, hwalk, rfl⟩

theorem verify_tail : verifyChunkChain { expectedPreviousHash := firstUnit.recordHash } [secondUnit]
    = .ok (unitVerification 1 1) := by
  have hfirst : checkFirst { expectedPreviousHash := firstUnit.recordHash } secondUnit = .ok () := by
    rw [checkFirst, validate_secondUnit]
    rfl
  have hwalk : walk { expectedPreviousHash := firstUnit.recordHash } secondUnit 0 none [secondUnit]
      = .ok (some secondUnit) := by
    simp only [walk, checkRecord, validate_secondUnit]
    rfl
  simp only [verifyChunkChain, bind_ok]
  exact ⟨(), rfl, (), hfirst, some secondUnit, hwalk, rfl⟩

theorem injOn_units : Set.InjOn Sha256.digest
    (committedBodies [firstUnit, secondUnit, firstUnit, secondUnit]) := by
  obtain ⟨first, hfirst, hfirstHash⟩ := firstUnit_body
  obtain ⟨second, hsecond, hsecondHash⟩ := secondUnit_body
  have hbodies : ∀ m ∈ committedBodies [firstUnit, secondUnit, firstUnit, secondUnit],
      m ∈ [first, second] := by
    rintro m ⟨record, hrecord, hm⟩
    simp only [List.mem_cons, List.not_mem_nil, or_false] at hrecord ⊢
    rcases hrecord with rfl | rfl | rfl | rfl
    · exact .inl (Except.ok.inj (hm.symm.trans hfirst))
    · exact .inr (Except.ok.inj (hm.symm.trans hsecond))
    · exact .inl (Except.ok.inj (hm.symm.trans hfirst))
    · exact .inr (Except.ok.inj (hm.symm.trans hsecond))
  have hnodup : ([first, second].map Sha256.hexdigest).Nodup := by
    rw [List.map_cons, List.map_singleton, hfirstHash, hsecondHash]
    decide
  intro m hm n hn h
  exact List.inj_on_of_nodup_map hnodup (hbodies m hm) (hbodies n hn) (congrArg Bytes.hex h)

/-- The theorem at one chain of two records. -/
theorem verifyChunkChain_sound_units :
    [firstUnit, secondUnit].Pairwise (fun r s => r.hi ≤ s.lo)
      ∧ ((∃ r ∈ [firstUnit, secondUnit], (1 : Int) ∈ Set.Ico r.lo r.hi)
        ↔ (1 : Int) ∈ Set.Ico (unitVerification 0 2).lo (unitVerification 0 2).hi)
      ∧ [firstUnit, secondUnit] = [firstUnit, secondUnit] := by
  obtain ⟨-, hpairwise, hcover, -⟩ :=
    verifyChunkChain_sound.1 {} [firstUnit, secondUnit] _ verify_units
  have hsame := (verifyChunkChain_sound.2 {} {} _ _ _ _ verify_units verify_units injOn_units
    rfl).2.mpr rfl
  exact ⟨hpairwise, hcover 1, hsame⟩

/-- **A chain and its tail end in the same hash.** The tail is accepted from the hash of the
record that was cut off. -/
theorem verifyChunkChain_tail : ∃ v v',
    verifyChunkChain {} [firstUnit, secondUnit] = .ok v
      ∧ verifyChunkChain { expectedPreviousHash := firstUnit.recordHash } [secondUnit] = .ok v'
      ∧ Set.InjOn Sha256.digest (committedBodies ([firstUnit, secondUnit] ++ [secondUnit]))
      ∧ v.finalHash = v'.finalHash ∧ [firstUnit, secondUnit] ≠ [secondUnit] := by
  have hmem : ∀ record ∈ [firstUnit, secondUnit] ++ [secondUnit],
      record ∈ [firstUnit, secondUnit, firstUnit, secondUnit] := by
    simp only [List.cons_append, List.nil_append, List.mem_cons, List.not_mem_nil, or_false]
    tauto
  have hinj := Set.InjOn.mono (committedBodies_mono hmem) injOn_units
  exact ⟨_, _, verify_units, verify_tail, hinj, rfl, by simp⟩

end AttestedCompute.Arithmetic
