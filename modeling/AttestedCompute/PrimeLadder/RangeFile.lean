import AttestedCompute.PrimeLadder.ProthSearch
import AttestedCompute.Lib.JsonAscii
import AttestedCompute.Lib.Sha256
import AttestedCompute.Lib.Varint

/-!
# Range files

`write_range_file` and `verify_range_file` of `tg_verifier/goldbach_campaign.py`. A range
file is a magic word, a canonical JSON header and one entry for each rung of the ladder: a
tag, the distance from the previous rung and the evidence for its primality. The verifier
checks the evidence of every rung and that the rungs leave no odd target uncovered.

A file is the bytes it holds. The artifact directory maps a file name to the bytes of the
certificate of that name; what an external prime checker prints is a parameter, and so are
the bounded primality test and what Python knows of floats.
-/

namespace AttestedCompute.PrimeLadder

open Fallible (refuseIf)
open JsonLoads (Value Floats)

/-- `raise CampaignError(message)` under a condition. -/
def raiseIf (bad : Prop) [Decidable bad] (message : String) : Checked Unit :=
  refuseIf bad (.campaign message)

/-! ## Constants -/

def ATOM_ID : String := "helfgott-platt-theorem-4-1"

def SCHEMA : String := "tg_goldbach_ladder_campaign_v1"

def RANGE_KIND : String := "tg_goldbach_ladder_range_v1"

def GENERAL_RESULT_KIND : String := "tg_general_prime_result_v1"

def SOURCE_RANGE_WIDTH : Int := 2 ^ 54 * 10 ^ 9

def SOURCE_RANGE_COUNT : Int := 492700

def SOURCE_MAXIMUM_GAP : Int := 4 * 10 ^ 18

def SOURCE_ENDPOINT_TOLERANCE : Int := 2 * 10 ^ 18

def SOURCE_BINARY_FIRST_EVEN : Int := 4

def SOURCE_BINARY_LAST_EVEN : Int := 4 * 10 ^ 18

def ANALYTIC_10POW27_ATOM_ID : String := "ternary-goldbach-finite-below-10pow27"

def ANALYTIC_10POW27_PROTH_EXPONENT : Int := 45

def ANALYTIC_10POW27_RANGE_WIDTH : Int := 2 ^ 47 * 10 ^ 9

def ANALYTIC_10POW27_RANGE_COUNT : Int := 7106

def ANALYTIC_10POW27_MAXIMUM_GAP : Int := 31250000000000000

def ANALYTIC_10POW27_ENDPOINT_TOLERANCE : Int := 15625000000000000

def ANALYTIC_10POW27_BINARY_FIRST_EVEN : Int := 4

def ANALYTIC_10POW27_BINARY_LAST_EVEN : Int := ANALYTIC_10POW27_MAXIMUM_GAP

/-- `TGGLRNG1` -/
def MAGIC : Bytes := [0x54, 0x47, 0x47, 0x4C, 0x52, 0x4E, 0x47, 0x31]

def MAX_HEADER_BYTES : Nat := 2 ^ 20

def MAX_VARINT_BYTES : Nat := 32

/-- The predecessor of the first range. -/
def ZERO_HASH : Text := List.replicate 64 0x30

/-! ## Text and numbers -/

/-- `str` of an integer, which has a limit on the digits. -/
def decimalText (n : Int) : Checked Text :=
  if n.natAbs < 10 ^ Py.maxStrDigits then .ok (Json.printInt n) else .error .tooManyDigits

/-- `canonical_json_bytes` -/
def canonicalJsonBytes (value : Json) : Checked Bytes :=
  match Json.asciiBytes value with
  | .ok bytes => .ok (bytes ++ [0x0A])
  | .error _ => .error .tooManyDigits

/-- `hashlib.sha256(...).hexdigest()` -/
def sha256Hex (bytes : Bytes) : Text := Text.ofString (Sha256.hexdigest bytes)

/-- A lower-case hexadecimal digit. -/
def isHexDigit (c : CodePoint) : Bool :=
  (0x30 ≤ c.val && c.val ≤ 0x39) || (0x61 ≤ c.val && c.val ≤ 0x66)

/-- `_hex_digest` -/
def hexDigest (value : Option Text) (name : String) : Checked Text :=
  match value with
  | some digest =>
      if digest.length = 64 ∧ digest.all isHexDigit = true then .ok digest
      else fail (name ++ " must be a lowercase SHA-256 digest")
  | none => fail (name ++ " must be a lowercase SHA-256 digest")

/-- `bytes.fromhex` of a digest. -/
def fromHex (digest : Text) : Bytes := (Bytes.ofHexChars (digest.map Text.toChar)).getD []

/-- `_write_varint` -/
def writeVarint (value : Int) : Checked Bytes :=
  if value < 0 then fail "varint must be a nonnegative integer"
  else .ok (Varint.encode value.toNat)

/-- `_read_varint` -/
def readVarint (bytes : Bytes) : Checked (Nat × Bytes) :=
  match Varint.read MAX_VARINT_BYTES bytes with
  | .ok read => .ok read
  | .error .truncated => fail "truncated varint"
  | .error .padded => fail "non-canonical varint"
  | .error .oversized => fail "oversized varint"

/-! ## Parameters -/

inductive CampaignMode where
  | fullSource
  | boundedTest
  | analytic10pow27
  deriving DecidableEq, Repr

def CampaignMode.name : CampaignMode → String
  | .fullSource => "full_source"
  | .boundedTest => "bounded_test"
  | .analytic10pow27 => "analytic_10pow27"

structure CampaignParameters where
  rangeWidth : Int := SOURCE_RANGE_WIDTH
  rangeCount : Int := SOURCE_RANGE_COUNT
  maximumGap : Int := SOURCE_MAXIMUM_GAP
  endpointTolerance : Int := SOURCE_ENDPOINT_TOLERANCE
  binaryFirstEven : Int := SOURCE_BINARY_FIRST_EVEN
  binaryLastEven : Int := SOURCE_BINARY_LAST_EVEN
  prothExponent : Int := PROTH_EXPONENT
  seedPrime : Int := 3
  mode : CampaignMode := .fullSource
  deriving DecidableEq

def CampaignParameters.endpoint (p : CampaignParameters) : Int := p.rangeWidth * p.rangeCount

/-- The parameters of the analytic profile; the mode is compared elsewhere. -/
def CampaignParameters.IsAnalytic (p : CampaignParameters) : Prop :=
  p.rangeWidth = ANALYTIC_10POW27_RANGE_WIDTH ∧ p.rangeCount = ANALYTIC_10POW27_RANGE_COUNT
    ∧ p.maximumGap = ANALYTIC_10POW27_MAXIMUM_GAP
    ∧ p.endpointTolerance = ANALYTIC_10POW27_ENDPOINT_TOLERANCE
    ∧ p.binaryFirstEven = ANALYTIC_10POW27_BINARY_FIRST_EVEN
    ∧ p.binaryLastEven = ANALYTIC_10POW27_BINARY_LAST_EVEN
    ∧ p.prothExponent = ANALYTIC_10POW27_PROTH_EXPONENT ∧ p.seedPrime = 3

instance (p : CampaignParameters) : Decidable p.IsAnalytic :=
  inferInstanceAs (Decidable (_ ∧ _ ∧ _ ∧ _ ∧ _ ∧ _ ∧ _ ∧ _))

/-- `CampaignParameters.validate` -/
def CampaignParameters.validate (isPrime : Int → Bool) (p : CampaignParameters) :
    Checked Unit := do
  raiseIf (∃ value ∈ [p.rangeWidth, p.rangeCount, p.maximumGap, p.endpointTolerance,
    p.binaryFirstEven, p.binaryLastEven, p.prothExponent, p.seedPrime], value ≤ 0)
    "campaign parameters must be positive integers"
  raiseIf (p.endpointTolerance * 2 ≠ p.maximumGap)
    "endpoint tolerance must be half the ladder bound"
  raiseIf (p.binaryFirstEven ≠ 4 ∨ p.binaryFirstEven % 2 ≠ 0)
    "binary prerequisite must begin at even integer 4"
  raiseIf (p.binaryLastEven ≠ p.maximumGap) "binary endpoint and ladder bound must agree"
  raiseIf (isPrime p.seedPrime = false ∨ p.seedPrime % 2 = 0)
    "seed must be an odd, directly checked prime"
  raiseIf (p.mode = .fullSource ∧ p ≠ {}) "full_source parameters must equal the paper constants"
  raiseIf (p.mode = .analytic10pow27 ∧ ¬ p.IsAnalytic)
    "analytic_10pow27 parameters must equal the reviewed production constants"

/-- `campaign_atom_id` -/
def campaignAtomId (p : CampaignParameters) : String :=
  if p.mode = .analytic10pow27 then ANALYTIC_10POW27_ATOM_ID else ATOM_ID

/-- `CampaignParameters.to_json` -/
def CampaignParameters.toJson (isPrime : Int → Bool) (p : CampaignParameters) :
    Checked Json := do
  p.validate isPrime
  let binaryFirstEven ← decimalText p.binaryFirstEven
  let binaryLastEven ← decimalText p.binaryLastEven
  let endpoint ← decimalText p.endpoint
  let endpointTolerance ← decimalText p.endpointTolerance
  let maximumGap ← decimalText p.maximumGap
  let rangeWidth ← decimalText p.rangeWidth
  let seedPrime ← decimalText p.seedPrime
  pure (.object [
    ("binary_first_even", .str binaryFirstEven),
    ("binary_last_even", .str binaryLastEven),
    ("endpoint", .str endpoint),
    ("endpoint_tolerance", .str endpointTolerance),
    ("maximum_gap", .str maximumGap),
    ("mode", .str (Text.ofString p.mode.name)),
    ("proth_exponent", .int p.prothExponent),
    ("range_count", .int p.rangeCount),
    ("range_width", .str rangeWidth),
    ("seed_prime", .str seedPrime)])

/-- The digest of the parameters that a range header carries. -/
def parametersSha256 (isPrime : Int → Bool) (p : CampaignParameters) : Checked Text := do
  let json ← p.toJson isPrime
  let bytes ← canonicalJsonBytes json
  pure (sha256Hex bytes)

/-! ## Entries -/

/-- `TAG_DIRECT64`, `TAG_PROTH52`, `TAG_POCKLINGTON`, `TAG_EXTERNAL`, `TAG_PROTH` -/
def CertificateKind.tag : CertificateKind → UInt8
  | .direct64 => 0
  | .proth52 => 1
  | .pocklington => 2
  | .external => 3
  | .proth => 4

/-- The evidence of an entry, after its tag and its distance. -/
def encodeEvidence (rung : Rung) : Checked Bytes :=
  match rung.certificateKind with
  | .direct64 => .ok []
  | .proth52 | .proth =>
      match rung.witness with
      | none => fail "Proth rung lacks witness"
      | some witness => writeVarint witness
  | .pocklington | .external => do
      let digest ← hexDigest rung.certificateSha256 "certificate_sha256"
      pure (fromHex digest)

/-- `_encode_rung` -/
def encodeRung (rung : Rung) (previous : Int) : Checked Bytes := do
  raiseIf (rung.number < previous) "rungs must be nondecreasing from the header base"
  let distance ← writeVarint (rung.number - previous)
  let evidence ← encodeEvidence rung
  pure (rung.certificateKind.tag :: (distance ++ evidence))

def CertificateKind.ofTag (tag : UInt8) : Option CertificateKind :=
  [.direct64, .proth52, .proth, .pocklington, .external].find? fun kind => kind.tag = tag

/-- The rung of an entry, from the bytes after its tag and its distance. -/
def decodeEvidence (kind : CertificateKind) (number : Int) (bytes : Bytes) :
    Checked (Rung × Bytes) :=
  match kind with
  | .direct64 => .ok (⟨number, kind, none, none⟩, bytes)
  | .proth52 | .proth => do
      let (witness, rest) ← readVarint bytes
      pure (⟨number, kind, some witness, none⟩, rest)
  | .pocklington | .external =>
      if bytes.length < 32 then fail "truncated certificate digest"
      else
        .ok (⟨number, kind, none, some (Text.ofString (Bytes.hex (bytes.take 32)))⟩, bytes.drop 32)

/-- `_decode_rung` -/
def decodeRung (bytes : Bytes) (previous : Int) : Checked (Rung × Bytes) :=
  match bytes with
  | [] => fail "truncated rung tag"
  | tag :: bytes => do
      let (distance, rest) ← readVarint bytes
      match CertificateKind.ofTag tag with
      | some kind => decodeEvidence kind (previous + distance) rest
      | none => fail "unknown rung tag"

/-! ## Writing a range file -/

/-- The entries after one with the number `last`. -/
def encodeRungsFrom (last : Int) : List Rung → Checked Bytes
  | [] => .ok []
  | rung :: rest => do
      raiseIf (rung.number ≤ last) "range rungs are not strictly increasing"
      let entry ← encodeRung rung last
      let entries ← encodeRungsFrom rung.number rest
      pure (entry ++ entries)

/-- The header object, with the index as it is spelled. -/
def rangeHeader {α : Type} (object : List (String × α) → α) (str : Text → α) (int : Int → α)
    (p : CampaignParameters) (parametersSha256 previousSha256 base left right : Text)
    (index : α) (count : Int) : α := object [
  ("atom_id", str (Text.ofString (campaignAtomId p))),
  ("base_prime", str base),
  ("index", index),
  ("kind", str (Text.ofString RANGE_KIND)),
  ("left", str left),
  ("parameters_sha256", str parametersSha256),
  ("previous_range_sha256", str previousSha256),
  ("record_count", int count),
  ("right", str right),
  ("schema", str (Text.ofString SCHEMA))]

/-- `write_range_file`: the bytes of the file. -/
def writeRangeFile (isPrime : Int → Bool) (p : CampaignParameters) (index : Int)
    (previousRangeSha256 : Text) (rungs : List Rung) : Checked Bytes := do
  p.validate isPrime
  raiseIf (¬ (0 ≤ index ∧ index < p.rangeCount)) "range index outside campaign"
  let previous ← hexDigest (some previousRangeSha256) "previous_range_sha256"
  match rungs with
  | [] => fail "range must contain at least one rung"
  | first :: rest => do
      let entry ← encodeRung first first.number
      let entries ← encodeRungsFrom first.number rest
      let base ← decimalText first.number
      let left ← decimalText (index * p.rangeWidth)
      let parametersHash ← parametersSha256 isPrime p
      let right ← decimalText ((index + 1) * p.rangeWidth)
      let headerBytes ← canonicalJsonBytes
        (rangeHeader Json.object .str .int p parametersHash previous base left right (.int index)
          rungs.length)
      raiseIf (MAX_HEADER_BYTES < headerBytes.length) "range header is oversized"
      pure (MAGIC ++ Varint.encode headerBytes.length ++ headerBytes ++ (entry ++ entries))

/-! ## Checking a rung -/

/-- What a finished process leaves. -/
structure Completed where
  returncode : Int
  stdout : Bytes
  stderr : Bytes

/-- A prime checker outside the repository: the digest of its file, and what it prints for a
number and the digest of a certificate. -/
structure ExternalChecker where
  sha256 : Text
  run : Int → Text → Completed

/-- What the checks of a campaign rest on. -/
structure Surroundings where
  /-- `is_prime_bounded` -/
  isPrime : Int → Bool
  floats : Floats
  /-- The files of the artifact directory. -/
  artifacts : Text → Option Bytes
  external : Option ExternalChecker

/-- `_run_external_prime_checker` -/
def runExternalPrimeChecker (floats : Floats) (checker : ExternalChecker) (number : Int)
    (digest : Text) : Checked Unit := do
  let completed := checker.run number digest
  raiseIf (completed.returncode ≠ 0 ∨ completed.stderr ≠ [])
    "external general-prime checker failed"
  match (JsonLoads.asciiText completed.stdout).bind JsonLoads.loads with
  | none => fail "external general-prime checker returned invalid JSON"
  | some result => do
      let decimal ← decimalText number
      let expected : Json := .object [
        ("certificate_sha256", .str digest),
        ("checker_sha256", .str checker.sha256),
        ("kind", .str (Text.ofString GENERAL_RESULT_KIND)),
        ("number", .str decimal),
        ("prime", .bool true)]
      raiseIf (completed.stdout ≠ JsonLoads.dumpsAscii floats result ++ [0x0A]
        ∨ JsonLoads.equals floats expected result = false)
        "external general-prime result is not exactly bound"

/-- `check_pocklington_file`, of a file with the right digest. -/
def checkPocklingtonFile (s : Surroundings) (content : Bytes) (number : Int) : Bool :=
  match (JsonLoads.asciiText content).bind JsonLoads.loads with
  | none => false
  | some root =>
      content = JsonLoads.dumpsAscii s.floats root ++ [0x0A] && 0 ≤ number
        && checkPocklingtonObject s.isPrime root (some number.toNat) 0

/-- A Proth rung: the exponent must be the one of its tag. -/
def checkProthRung (rung : Rung) (applies : Prop) [Decidable applies] (exponent : Int)
    (message : String) : Checked Unit :=
  match rung.witness with
  | some witness =>
      if applies then do
        let accepted ← checkProth rung.number witness exponent
        raiseIf (accepted = false) message
      else fail message
  | none => fail message

/-- `check_rung` -/
def checkRung (s : Surroundings) (rung : Rung) (prothExponent : Int) : Checked Unit :=
  match rung.certificateKind with
  | .direct64 =>
      raiseIf (s.isPrime rung.number = false) "direct rung is not a checked 64-bit prime"
  | .proth52 =>
      checkProthRung rung (prothExponent = PROTH_EXPONENT) PROTH_EXPONENT "Proth certificate failed"
  | .proth =>
      checkProthRung rung (prothExponent ≠ PROTH_EXPONENT) prothExponent
        "parameterized Proth certificate failed"
  | .pocklington | .external => do
      let digest ← hexDigest rung.certificateSha256 "certificate_sha256"
      match s.artifacts digest with
      | none => fail "general-prime certificate artifact is absent or changed"
      | some content => do
          raiseIf (sha256Hex content ≠ digest)
            "general-prime certificate artifact is absent or changed"
          if rung.certificateKind = .pocklington then
            raiseIf (checkPocklingtonFile s content rung.number = false)
              "Pocklington certificate failed"
          else
            match s.external with
            | none => fail "external prime rung requires --general-prime-checker"
            | some checker => runExternalPrimeChecker s.floats checker rung.number digest

/-! ## Verifying a range file -/

structure EvidenceCounts where
  direct64 : Nat := 0
  external : Nat := 0
  pocklington : Nat := 0
  proth : Nat := 0
  proth52 : Nat := 0
  deriving DecidableEq, Repr

def EvidenceCounts.add (counts : EvidenceCounts) : CertificateKind → EvidenceCounts
  | .direct64 => { counts with direct64 := counts.direct64 + 1 }
  | .external => { counts with external := counts.external + 1 }
  | .pocklington => { counts with pocklington := counts.pocklington + 1 }
  | .proth => { counts with proth := counts.proth + 1 }
  | .proth52 => { counts with proth52 := counts.proth52 + 1 }

structure VerifiedRange where
  index : Nat
  sha256 : Text
  first : Rung
  last : Rung
  recordCount : Nat
  coveredThrough : Int
  maximumObservedGap : Int
  evidenceCounts : EvidenceCounts
  generalCertificateSha256s : List Text
  deriving DecidableEq

/-- The local variables of the loop over the entries. -/
structure RangeScan where
  previous : Int
  coveredThrough : Int := 0
  maximumObservedGap : Int := 0
  evidenceCounts : EvidenceCounts := {}
  generalCertificates : List Text := []
  first : Option Rung := none
  last : Option Rung := none

def RangeScan.certificatesWith (scan : RangeScan) (rung : Rung) : List Text :=
  match rung.certificateSha256 with
  | some digest => scan.generalCertificates.insert digest
  | none => scan.generalCertificates

/-- The variables after a rung that passed the checks. -/
def RangeScan.observe (p : CampaignParameters) (ordinal : Nat) (scan : RangeScan) (rung : Rung) :
    RangeScan where
  previous := rung.number
  coveredThrough := max scan.coveredThrough (rung.number + p.binaryLastEven)
  maximumObservedGap :=
    if ordinal = 0 then scan.maximumObservedGap
    else max scan.maximumObservedGap (rung.number - scan.previous)
  evidenceCounts := scan.evidenceCounts.add rung.certificateKind
  generalCertificates := scan.certificatesWith rung
  first := scan.first.or (some rung)
  last := some rung

/-- The checks of one rung. -/
def scanRung (s : Surroundings) (p : CampaignParameters) (base : Int) (ordinal : Nat)
    (scan : RangeScan) (rung : Rung) : Checked RangeScan := do
  if ordinal = 0 then raiseIf (rung.number ≠ base) "first rung does not equal header base"
  else raiseIf (rung.number ≤ scan.previous) "rungs are not strictly increasing"
  checkRung s rung p.prothExponent
  raiseIf (ordinal ≠ 0 ∧ p.maximumGap < rung.number - scan.previous)
    "ladder gap exceeds the source bound"
  raiseIf (ordinal ≠ 0 ∧ scan.coveredThrough + 2 < rung.number + p.binaryFirstEven)
    "range ladder leaves an uncovered odd target"
  pure (scan.observe p ordinal rung)

/-- `for ordinal in range(count)`, with the rounds that are left. -/
def scanRungs (s : Surroundings) (p : CampaignParameters) (base : Int) :
    Nat → Nat → RangeScan → Bytes → Checked (RangeScan × Bytes)
  | 0, _, scan, bytes => .ok (scan, bytes)
  | left + 1, ordinal, scan, bytes => do
      let (rung, rest) ← decodeRung bytes scan.previous
      let scan ← scanRung s p base ordinal scan rung
      scanRungs s p base left (ordinal + 1) scan rest

def headerKeys : List Text :=
  ["atom_id", "base_prime", "index", "kind", "left", "parameters_sha256", "previous_range_sha256",
    "record_count", "right", "schema"].map Text.ofString

/-- The checks on the fields of the header: the number of records and the base. -/
def checkHeader (floats : Floats) (p : CampaignParameters) (parametersHash : Text)
    (expectedIndex : Nat) (expectedPreviousSha256 : Text) (header : Value) :
    Checked (Nat × Nat) :=
  match header with
  | .obj members => do
      let differs := fun (key : String) (text : Text) =>
        JsonLoads.equals floats (.str text) (field members key) = false
      raiseIf (hasKeys members headerKeys = false) "range header field set mismatch"
      raiseIf (differs "kind" (Text.ofString RANGE_KIND) ∨ differs "schema" (Text.ofString SCHEMA)
        ∨ differs "atom_id" (Text.ofString (campaignAtomId p))) "range identity mismatch"
      raiseIf (JsonLoads.equals floats (.int expectedIndex) (field members "index") = false
        ∨ differs "previous_range_sha256" expectedPreviousSha256)
        "range order or hash chain mismatch"
      raiseIf (differs "parameters_sha256" parametersHash) "range parameter hash mismatch"
      let left ← decimal (field members "left") "left"
      raiseIf (left ≠ expectedIndex * p.rangeWidth) "range schedule mismatch"
      let right ← decimal (field members "right") "right"
      raiseIf (right ≠ (expectedIndex + 1) * p.rangeWidth) "range schedule mismatch"
      let count ← (match field members "record_count" with
        | .int count => if count ≤ 0 then fail "invalid record count" else .ok count.toNat
        | _ => fail "invalid record count")
      let base ← decimal (field members "base_prime") "base_prime"
      pure (count, base)
  | _ => fail "range header is not an object"

/-- The end of `verify_range_file`: the checks on the whole range. -/
def finishRange (p : CampaignParameters) (index count : Nat) (file : Bytes) (scan : RangeScan) :
    Checked VerifiedRange :=
  match scan.first, scan.last with
  | some first, some last => do
      raiseIf (p.endpointTolerance < |first.number - index * p.rangeWidth|)
        "first rung is outside source endpoint tolerance"
      raiseIf (p.endpointTolerance < |last.number - (index + 1) * p.rangeWidth|)
        "last rung is outside source endpoint tolerance"
      pure
        { index := index, sha256 := sha256Hex file, first := first, last := last
          recordCount := count, coveredThrough := scan.coveredThrough
          maximumObservedGap := scan.maximumObservedGap, evidenceCounts := scan.evidenceCounts
          generalCertificateSha256s := scan.generalCertificates.insertionSort (· ≤ ·) }
  | _, _ => fail "range unexpectedly has no rungs"

/-- `verify_range_file`, of the bytes of the file. A header outside ASCII is refused as invalid,
where the source may call it non-canonical. -/
def verifyRangeFile (s : Surroundings) (p : CampaignParameters) (expectedIndex : Nat)
    (expectedPreviousSha256 : Text) (file : Bytes) : Checked VerifiedRange := do
  let parametersHash ← parametersSha256 s.isPrime p
  raiseIf (file.take MAGIC.length ≠ MAGIC) "bad range magic"
  let (headerLength, stream) ← readVarint (file.drop MAGIC.length)
  raiseIf (MAX_HEADER_BYTES < headerLength) "oversized range header"
  let headerBytes := stream.take headerLength
  match (JsonLoads.asciiText headerBytes).bind JsonLoads.loads with
  | none => fail "invalid range header"
  | some header => do
      raiseIf (headerBytes ≠ JsonLoads.dumpsAscii s.floats header ++ [0x0A])
        "non-canonical range header"
      let (count, base) ← checkHeader s.floats p parametersHash expectedIndex
        expectedPreviousSha256 header
      let (scan, rest) ← scanRungs s p base count 0 { previous := base }
        (stream.drop headerLength)
      raiseIf (rest ≠ []) "trailing range bytes"
      finishRange p expectedIndex count file scan

end AttestedCompute.PrimeLadder
