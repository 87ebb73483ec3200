import AttestedCompute.Lib.Fallible
import AttestedCompute.Lib.JsonAscii
import AttestedCompute.Lib.Sha256

/-!
# Chunk records

The hash-linked range records of `tg_verifier/arithmetic.py`. A record carries one
half-open range, the state before and after it, and the hash of the record before it;
its own hash commits to all of that through one canonical JSON body.
-/

namespace AttestedCompute.Arithmetic

open Fallible

/-- The failures of a chunk record or a chain of them. -/
inductive ChunkVerificationError where
  /-- An exception of the JSON or the UTF-8 codec, which is not a chunk error. -/
  | codec (fault : Json.Fault)
  | belowMinimum (name : String) (minimum : Int)
  | unsupportedSchema (version : Int)
  | algorithmEmpty
  | algorithmLong
  | rangeEmpty
  | notDigest (name : String)
  | hashMismatch
  | chainEmpty
  | payloadCount
  | expectedRangeEmpty
  | firstAlgorithm
  | firstConstants
  | firstPredecessor
  | firstLower
  | firstState
  | changesAlgorithm (index : Nat)
  | changesConstants (index : Nat)
  | payloadDigest (index : Nat)
  | hashLink (index : Nat)
  | coverage (index : Nat)
  | stateLink (index : Nat)
  | endedEmpty
  | lastUpper
  | lastState
  deriving DecidableEq, Repr

/-- The text of each failure. -/
def ChunkVerificationError.message : ChunkVerificationError → String
  | codec .longInteger => "Exceeds the limit (4300 digits) for integer string conversion"
  | codec .surrogate => "surrogates not allowed"
  | belowMinimum name minimum => name ++ " must be at least " ++ toString minimum
  | unsupportedSchema version => "unsupported chunk schema version " ++ toString version
  | algorithmEmpty => "algorithm must be a nonempty string"
  | algorithmLong => "algorithm identifier is too long"
  | rangeEmpty => "chunk range must be nonempty and half-open"
  | notDigest name => name ++ " must be 64 lowercase hexadecimal characters"
  | hashMismatch => "record hash does not match canonical body"
  | chainEmpty => "chunk chain must be a nonempty sequence"
  | payloadCount => "payload count does not match chunk count"
  | expectedRangeEmpty => "expected range must be nonempty"
  | firstAlgorithm => "first chunk has the wrong algorithm"
  | firstConstants => "first chunk has the wrong constants digest"
  | firstPredecessor => "first chunk has the wrong predecessor hash"
  | firstLower => "first chunk has the wrong lower endpoint"
  | firstState => "first chunk has the wrong incoming state"
  | changesAlgorithm index => "chunk " ++ toString index ++ " changes algorithm"
  | changesConstants index => "chunk " ++ toString index ++ " changes constants"
  | payloadDigest index => "payload " ++ toString index ++ " digest mismatch"
  | hashLink index => "chunk " ++ toString index ++ " breaks the hash link"
  | coverage index => "chunk " ++ toString index ++ " breaks range coverage"
  | stateLink index => "chunk " ++ toString index ++ " breaks the state link"
  | endedEmpty => "chunk chain unexpectedly ended empty"
  | lastUpper => "last chunk has the wrong upper endpoint"
  | lastState => "last chunk has the wrong outgoing state"

abbrev Checked := Except ChunkVerificationError

def CHUNK_SCHEMA_VERSION : Int := 1

def ZERO_SHA256 : Text := List.replicate 64 0x30

/-- Return the lowercase SHA-256 digest of a byte payload. -/
def sha256Bytes (payload : Bytes) : Text := Text.ofString (Sha256.hexdigest payload)

/-- `[0-9a-f]` -/
def isLowerHex (c : CodePoint) : Bool :=
  0x30 ≤ c.val && c.val ≤ 0x39 || 0x61 ≤ c.val && c.val ≤ 0x66

/-- `_SHA256_RE.fullmatch(digest)` -/
def isDigest (digest : Text) : Bool := digest.length = 64 && digest.all isLowerHex

def requireDigest (name : String) (digest : Text) : Checked Unit :=
  refuseIf (isDigest digest = false) (.notDigest name)

/-- `_require_int` of an integer with a lower bound. -/
def requireInt (name : String) (value minimum : Int) : Checked Unit :=
  refuseIf (value < minimum) (.belowMinimum name minimum)

/-- A deterministic, exact-state, hash-linked half-open range record. -/
structure ChunkRecord where
  schemaVersion : Int
  algorithm : Text
  lo : Int
  hi : Int
  constantsDigest : Text
  previousHash : Text
  incomingState : List Int
  outgoingState : List Int
  summary : List Int
  payloadDigest : Text
  recordHash : Text
  deriving DecidableEq

namespace ChunkRecord

def bodyKeys : List Text := [
  "algorithm", "constants_digest", "hi", "incoming_state", "lo", "outgoing_state",
  "payload_digest", "previous_hash", "schema_version", "summary"].map Text.ofString

def words (ns : List Int) : Json := .arr (ns.map .int)

def bodyValues (record : ChunkRecord) : List Json := [
  .str record.algorithm, .str record.constantsDigest, .int record.hi,
  words record.incomingState, .int record.lo, words record.outgoingState,
  .str record.payloadDigest, .str record.previousHash, .int record.schemaVersion,
  words record.summary]

/-- The integer/string-only body committed by `record_hash`. -/
def body (record : ChunkRecord) : Json := .obj (bodyKeys.zip record.bodyValues)

/-- Serialize the committed body with one deterministic JSON encoding. -/
def canonicalBodyBytes (record : ChunkRecord) : Checked Bytes :=
  match Json.asciiBytes record.body with
  | .ok bytes => .ok bytes
  | .error fault => .error (.codec fault)

/-- Recompute the record hash from its canonical body. -/
def recomputedHash (record : ChunkRecord) : Checked Text :=
  sha256Bytes <$> record.canonicalBodyBytes

end ChunkRecord

/-- The message of an unsupported version prints it, which can itself fail. -/
def schemaFailure (version : Int) : ChunkVerificationError :=
  if version.natAbs < 10 ^ 4300 then .unsupportedSchema version else .codec .longInteger

def checkRecordHash (record : ChunkRecord) : Checked Unit := do
  let hash ← record.recomputedHash
  refuseIf (hash ≠ record.recordHash) .hashMismatch

def validateChunkFields (record : ChunkRecord) (checkHash : Bool) : Checked Unit := do
  requireInt "schema_version" record.schemaVersion 1
  refuseIf (record.schemaVersion ≠ CHUNK_SCHEMA_VERSION) (schemaFailure record.schemaVersion)
  refuseIf (record.algorithm = []) .algorithmEmpty
  -- `algorithm.encode("utf-8")` stands outside every `try`
  refuseIf (¬ record.algorithm.Encodable) (.codec .surrogate)
  refuseIf (256 < record.algorithm.utf8.length) .algorithmLong
  requireInt "lo" record.lo 0
  requireInt "hi" record.hi 0
  refuseIf (record.hi ≤ record.lo) .rangeEmpty
  requireDigest "constants_digest" record.constantsDigest
  requireDigest "previous_hash" record.previousHash
  requireDigest "payload_digest" record.payloadDigest
  requireDigest "record_hash" record.recordHash
  if checkHash then checkRecordHash record else pure ()

/-- Create one validated deterministic chunk record from exact inputs. -/
def createChunkRecord (algorithm : Text) (lo hi : Int) (incomingState outgoingState summary : List Int)
    (constants payload : Bytes) (previousHash : Text) : Checked ChunkRecord := do
  let record : ChunkRecord := {
    schemaVersion := CHUNK_SCHEMA_VERSION
    algorithm := algorithm
    lo := lo
    hi := hi
    constantsDigest := sha256Bytes constants
    previousHash := previousHash
    incomingState := incomingState
    outgoingState := outgoingState
    summary := summary
    payloadDigest := sha256Bytes payload
    recordHash := ZERO_SHA256 }
  validateChunkFields record false
  let recordHash ← record.recomputedHash
  let result := { record with recordHash := recordHash }
  validateChunkFields result true
  pure result

/-! ## What a valid record is -/

/-- What every check of a record establishes. -/
structure ValidRecord (record : ChunkRecord) : Prop where
  schema : record.schemaVersion = CHUNK_SCHEMA_VERSION
  named : record.algorithm ≠ []
  encodable : record.algorithm.Encodable
  nonneg : 0 ≤ record.lo
  nonempty : record.lo < record.hi
  constantsDigest : isDigest record.constantsDigest = true
  previousHash : isDigest record.previousHash = true
  payloadDigest : isDigest record.payloadDigest = true
  hashed : record.recomputedHash = .ok record.recordHash

theorem checkRecordHash_ok {record : ChunkRecord} :
    checkRecordHash record = .ok () ↔ record.recomputedHash = .ok record.recordHash := by
  rw [checkRecordHash, bind_ok]
  constructor
  · rintro ⟨hash, hok, hsame⟩
    rw [refuseIf_ok, not_not] at hsame
    rw [hok, hsame]
  · intro h
    exact ⟨_, h, refuseIf_ok.mpr (by simp)⟩

theorem validRecord_of_ok {record : ChunkRecord}
    (h : validateChunkFields record true = .ok ()) : ValidRecord record := by
  simp only [validateChunkFields, requireInt, requireDigest, bind_ok, refuseIf_ok, if_true,
    exists_const, checkRecordHash_ok, not_not, Bool.not_eq_false] at h
  obtain ⟨-, hschema, hnamed, hencodable, -, hlo, -, hrange, hconstants, hprevious, hpayload, -,
    hhash⟩ := h
  exact {
    schema := hschema
    named := hnamed
    encodable := hencodable
    nonneg := not_lt.mp hlo
    nonempty := not_le.mp hrange
    constantsDigest := hconstants
    previousHash := hprevious
    payloadDigest := hpayload
    hashed := hhash }

theorem validateChunkFields_true (record : ChunkRecord) : validateChunkFields record true
    = validateChunkFields record false >>= fun _ => checkRecordHash record := by
  simp only [validateChunkFields, bind_assoc, if_true, Bool.false_eq_true, if_false, pure_bind]

/-- A record that is created is valid. -/
theorem createChunkRecord_valid {algorithm : Text} {lo hi : Int} {incoming outgoing summary : List Int}
    {constants payload : Bytes} {previousHash : Text} {record : ChunkRecord}
    (h : createChunkRecord algorithm lo hi incoming outgoing summary constants payload previousHash
      = .ok record) : validateChunkFields record true = .ok () := by
  simp only [createChunkRecord, bind_ok, pure_ok] at h
  obtain ⟨_, -, hash, -, _, hvalid, rfl⟩ := h
  exact hvalid

/-! ## The hash commits to the record -/

theorem isLowerHex_iff {c : CodePoint} : isLowerHex c = true ↔ Text.IsHex c := by
  simp only [isLowerHex, Bool.or_eq_true, Bool.and_eq_true, decide_eq_true_eq]
  rfl

/-- A digest holds no surrogate. -/
theorem encodable_of_isDigest {digest : Text} (h : isDigest digest = true) : digest.Encodable := by
  simp only [isDigest, Bool.and_eq_true] at h
  refine Text.encodable_of_isHex fun c hc => isLowerHex_iff.mp (List.all_eq_true.mp h.2 c hc)

theorem isDigest_sha256Bytes (payload : Bytes) : isDigest (sha256Bytes payload) = true := by
  have hlength : (sha256Bytes payload).length = 64 := by
    rw [sha256Bytes, Sha256.hexdigest, Text.length_ofString_hex, Sha256.length_digest]
  rw [isDigest, hlength, Bool.and_eq_true, List.all_eq_true]
  exact ⟨rfl, fun c hc => isLowerHex_iff.mpr (Text.isHex_of_mem_hex hc)⟩

theorem clean_words (ns : List Int) : Json.Clean (ChunkRecord.words ns) := by
  show Json.CleanItems (ns.map Json.int)
  induction ns with
  | nil => trivial
  | cons n ns ih => exact ⟨trivial, ih⟩

theorem sortKeys_words (ns : List Int) :
    Json.sortKeys (ChunkRecord.words ns) = ChunkRecord.words ns := by
  rw [ChunkRecord.words, Json.sortKeys, Json.sortItems_eq, List.map_map]
  rfl

theorem words_injective {ms ns : List Int} (h : ChunkRecord.words ms = ChunkRecord.words ns) :
    ms = ns := by
  injection h with h
  exact List.map_injective_iff.mpr (fun _ _ h => by injection h) h

theorem bodyKeys_nodup : ChunkRecord.bodyKeys.Nodup :=
  List.Nodup.map Text.ofString_injective (by decide)

theorem clean_body {record : ChunkRecord} (h : ValidRecord record) : Json.Clean record.body := by
  refine Json.cleanMembers_iff.mpr fun m hm => ?_
  obtain ⟨hkey, hvalue⟩ := List.of_mem_zip hm
  constructor
  · obtain ⟨name, -, hname⟩ := List.mem_map.mp hkey
    exact hname ▸ Text.encodable_ofString name
  · simp only [ChunkRecord.bodyValues, List.mem_cons, List.not_mem_nil, or_false] at hvalue
    rcases hvalue with hv | hv | hv | hv | hv | hv | hv | hv | hv | hv <;> rw [hv]
    · exact h.encodable
    · exact encodable_of_isDigest h.constantsDigest
    · trivial
    · exact clean_words _
    · trivial
    · exact clean_words _
    · exact encodable_of_isDigest h.payloadDigest
    · exact encodable_of_isDigest h.previousHash
    · trivial
    · exact clean_words _

theorem map_sortKeys_bodyValues (record : ChunkRecord) :
    record.bodyValues.map Json.sortKeys = record.bodyValues := by
  simp only [ChunkRecord.bodyValues, List.map_cons, List.map_nil, sortKeys_words, Json.sortKeys]

/-- **The canonical body determines every field but the hash itself.** -/
theorem canonicalBodyBytes_injective {r s : ChunkRecord} {bytes : Bytes} (hr : ValidRecord r)
    (hs : ValidRecord s) (hrb : r.canonicalBodyBytes = .ok bytes)
    (hsb : s.canonicalBodyBytes = .ok bytes) : r.bodyValues = s.bodyValues := by
  have hok : ∀ {x : ChunkRecord}, x.canonicalBodyBytes = .ok bytes →
      Json.asciiBytes x.body = .ok bytes := by
    intro x hx
    unfold ChunkRecord.canonicalBodyBytes at hx
    generalize Json.asciiBytes x.body = encoded at hx ⊢
    cases encoded with
    | ok out => exact congrArg _ (Except.ok.inj hx)
    | error fault => cases hx
  have hsort := Json.asciiBytes_injective (clean_body hr) (clean_body hs) (hok hrb) (hok hsb)
  have hvalues := Json.sortKeys_obj_injective bodyKeys_nodup rfl rfl hsort
  rwa [map_sortKeys_bodyValues, map_sortKeys_bodyValues] at hvalues

/-- The messages that the hashes of a chain commit to. -/
def committedBodies (records : List ChunkRecord) : Set Bytes :=
  {bytes | ∃ record ∈ records, record.canonicalBodyBytes = .ok bytes}

theorem committedBodies_mono {records records' : List ChunkRecord}
    (h : ∀ record ∈ records, record ∈ records') :
    committedBodies records ⊆ committedBodies records' :=
  fun _ ⟨record, hrecord, hbytes⟩ => ⟨record, h record hrecord, hbytes⟩

theorem sha256Bytes_injOn {S : Set Bytes} (hinj : Set.InjOn Sha256.digest S) {m n : Bytes}
    (hm : m ∈ S) (hn : n ∈ S) (h : sha256Bytes m = sha256Bytes n) : m = n :=
  hinj hm hn (Bytes.hex_injective (Text.ofString_injective h))

/-- **The record hash determines the record**, for a hash that is injective on the bodies. -/
theorem eq_of_recordHash {r s : ChunkRecord} {records : List ChunkRecord} (hr : ValidRecord r)
    (hs : ValidRecord s) (hrm : r ∈ records) (hsm : s ∈ records)
    (hinj : Set.InjOn Sha256.digest (committedBodies records)) (h : r.recordHash = s.recordHash) :
    r = s := by
  have hbody : ∀ {x : ChunkRecord}, ValidRecord x → ∃ bytes, x.canonicalBodyBytes = .ok bytes
      ∧ sha256Bytes bytes = x.recordHash := by
    intro x hx
    have hhash := hx.hashed
    unfold ChunkRecord.recomputedHash at hhash
    cases hbytes : x.canonicalBodyBytes with
    | error e => rw [hbytes] at hhash; cases hhash
    | ok bytes =>
        rw [hbytes] at hhash
        injection hhash with hhash
        exact ⟨bytes, rfl, hhash⟩
  obtain ⟨bytes, hrb, hrh⟩ := hbody hr
  obtain ⟨bytes', hsb, hsh⟩ := hbody hs
  obtain rfl : bytes = bytes' := sha256Bytes_injOn hinj ⟨r, hrm, hrb⟩ ⟨s, hsm, hsb⟩
    (hrh.trans (h.trans hsh.symm))
  have hvalues := canonicalBodyBytes_injective hr hs hrb hsb
  simp only [ChunkRecord.bodyValues, List.cons.injEq, Json.str.injEq, Json.int.injEq] at hvalues
  obtain ⟨halgorithm, hconstants, hhi, hincoming, hlo, houtgoing, hpayload, hprevious, hschema,
    hsummary, -⟩ := hvalues
  cases r
  cases s
  simp only [ChunkRecord.mk.injEq]
  exact ⟨hschema, halgorithm, hlo, hhi, hconstants, hprevious, words_injective hincoming,
    words_injective houtgoing, words_injective hsummary, hpayload, h⟩

end AttestedCompute.Arithmetic
