import AttestedCompute.Lib.PackedStruct
import AttestedCompute.Lib.Sha256
import AttestedCompute.SmallQ.Payload

/-!
# The packed sign stream

The stream format of `tg_verifier/dirichlet_booker_smallq_packed_stream_v1.py`: one frame for each
batch of the plan, each frame bound to the plan and chained to the one before, and a terminal record
over everything. `packStream` is the writer from the sign codes on (how a code is decided from a
disk is left out), `codeChunks` is the reader. The inputs of a run are taken not to change under it.
-/

namespace AttestedCompute.SmallQ

open Fallible PackedStruct

/-- The bytes of an ASCII literal. -/
def ascii (text : String) : Bytes := text.toList.map fun c => UInt8.ofNat c.toNat

def REDUCED_SERVICE_OUTPUT_MAGIC : Bytes := ascii "TGDBSQR3"
def FORMAT_VERSION : Int := 3

def FRAME_MAGIC : Bytes := ascii "TGDBSPK1"
def END_MAGIC : Bytes := ascii "TGDBSPE1"
def TRAILER_MAGIC : Bytes := ascii "TGDBSPT1"
def FORMAT_VERSION_V1 : Int := 1
def HOST_PRODUCTION_MODE : Int := 1
def STRUCTURAL_KAT_MODE : Int := 2
def DEVICE_PRODUCTION_MODE : Int := 3
def BITS_PER_CODE : Int := 2
def ZERO_DIGEST : Bytes := List.replicate 32 0

/-- `"<8sIIII9QII"` -/
abbrev FRAME_PREFIX : Format :=
  [.raw 8, .unsigned 4, .unsigned 4, .unsigned 4, .unsigned 4, .unsigned 8, .unsigned 8,
    .unsigned 8, .unsigned 8, .unsigned 8, .unsigned 8, .unsigned 8, .unsigned 8, .unsigned 8,
    .unsigned 4, .unsigned 4]

/-- `"<4Q"` -/
abbrev FRAME_BATCH_BINDING : Format := [.unsigned 8, .unsigned 8, .unsigned 8, .unsigned 8]

/-- `"<" + "32s" * 10` -/
abbrev FRAME_DIGESTS : Format :=
  [.raw 32, .raw 32, .raw 32, .raw 32, .raw 32, .raw 32, .raw 32, .raw 32, .raw 32, .raw 32]

/-- `"<8sIIQQ32s32s"` -/
abbrev FRAME_TRAILER : Format :=
  [.raw 8, .unsigned 4, .unsigned 4, .unsigned 8, .unsigned 8, .raw 32, .raw 32]

/-- `"<8sIIQQ32s32s"` -/
abbrev STREAM_END : Format :=
  [.raw 8, .unsigned 4, .unsigned 4, .unsigned 8, .unsigned 8, .raw 32, .raw 32]

def FRAME_DOMAIN : Bytes := ascii "SparkInterval/DirichletBookerSmallQ/packed-sign-frame/v1" ++ [0]

/-- `format.pack(*record)` -/
def structPack (format : Format) (record : Record format) : Checked Bytes :=
  packOr .struct format record

/-! ## What a run is prepared from -/

/-- The batch fields that a frame binds; `characters` is `len(batch.characters)`. -/
structure Batch where
  sha256 : Bytes
  characters : Nat
  characterStart : Int
  campaignCharacterCount : Int
  batchOrdinal : Int
  campaignBatchCount : Int

structure Plan where
  sha256 : Bytes
  q : Int
  transformLength : Nat
  characterRosterSha256 : Bytes
  campaignCharacterCount : Nat

/-- The pin fields that a frame binds and the digest of the whole pinset. -/
structure Pins where
  firstTNumerator : Int
  stopTNumerator : Int
  structuralBoundedSpanKat : Bool
  pinsetSha256 : String

/-- `_Prepared` -/
structure Prepared where
  plan : Plan
  batches : List Batch
  controlSha256 : String
  controlReceiptSha256 : String
  rosterSha256 : String
  batchPartitionSha256 : Bytes
  sampleStart : Nat
  sampleCount : Nat
  pins : Pins
  sourceBinding : String

/-- Where the signs were packed. -/
inductive PackingLocation where
  | host
  | device
  deriving DecidableEq, Repr

/-- `_bytes_digest` -/
def bytesDigest (name value : String) : Checked Bytes :=
  match Bytes.ofHexChars value.toList with
  | none => .error (.failed (name ++ " is not lowercase SHA-256"))
  | some raw => do
      failIf (raw.length ≠ 32 ∨ value ≠ raw.hex) (name ++ " is not lowercase SHA-256")
      pure raw

/-- `_mode` -/
def modeOf (pins : Pins) (location : PackingLocation) : Checked Int :=
  if pins.structuralBoundedSpanKat then do
    failIf (location ≠ .host) "device packing is admitted only for the full production span"
    pure STRUCTURAL_KAT_MODE
  else
    match location with
    | .host => pure HOST_PRODUCTION_MODE
    | .device => pure DEVICE_PRODUCTION_MODE

/-- What the run reports of a frame without recomputing it. -/
structure Reported where
  terms : Int
  butterflies : Int
  elapsed : Int
  deriving DecidableEq, Repr

def frameItems (prepared : Prepared) (batch : Batch) : Nat := batch.characters * prepared.sampleCount

def expectedButterflies (prepared : Prepared) (batch : Batch) : Int :=
  batch.characters * (prepared.plan.transformLength / 2 : Nat)
    * ((prepared.plan.transformLength.size : Int) - 1)

/-- The values of the frame prefix. -/
def prefixRecord (prepared : Prepared) (batch : Batch) (mode : Int) (reported : Reported) :
    Record FRAME_PREFIX :=
  (FRAME_MAGIC, FORMAT_VERSION_V1, mode, prepared.plan.q, BITS_PER_CODE, batch.characters,
    prepared.sampleStart, prepared.sampleCount, prepared.pins.firstTNumerator,
    prepared.pins.stopTNumerator, ((frameItems prepared batch + 3) / 4 : Nat), reported.terms,
    reported.butterflies, reported.elapsed, 0, 0, ())

/-- `_frame_bytes` -/
def frameBytes (prepared : Prepared) (batch : Batch) (reported : Reported) (previousFrame : Bytes)
    (location : PackingLocation) : Checked (Bytes × Bytes × Bytes) := do
  let mode ← modeOf prepared.pins location
  let head ← structPack FRAME_PREFIX (prefixRecord prepared batch mode reported)
  let binding ← structPack FRAME_BATCH_BINDING
    (batch.characterStart, batch.campaignCharacterCount, batch.batchOrdinal,
      batch.campaignBatchCount, ())
  let control ← bytesDigest "control SHA-256" prepared.controlSha256
  let receipt ← bytesDigest "control receipt SHA-256" prepared.controlReceiptSha256
  let roster ← bytesDigest "compact roster SHA-256" prepared.rosterSha256
  let pinset ← bytesDigest "pinset SHA-256" prepared.pins.pinsetSha256
  let source ← bytesDigest "source binding SHA-256" prepared.sourceBinding
  let digests ← structPack FRAME_DIGESTS
    (prepared.plan.sha256, batch.sha256, control, receipt, prepared.batchPartitionSha256,
      prepared.plan.characterRosterSha256, roster, pinset, source, previousFrame, ())
  pure (head, binding, digests)

/-- The code counts and totals that both sides keep. -/
structure Totals where
  items : Nat := 0
  ambiguous : Nat := 0
  negative : Nat := 0
  positive : Nat := 0
  finiteTerms : Int := 0
  butterflies : Int := 0
  cudaElapsed : Int := 0
  deriving DecidableEq, Repr

/-- Count one code. -/
def Totals.observe (totals : Totals) (code : Int) : Totals :=
  if code = AMBIGUOUS_CODE then { totals with ambiguous := totals.ambiguous + 1 }
  else if code = NEGATIVE_CODE then { totals with negative := totals.negative + 1 }
  else { totals with positive := totals.positive + 1 }

/-- Count the codes of a frame and what it reports. -/
def Totals.frame (totals : Totals) (codes : List Int) (items : Nat) (reported : Reported) : Totals :=
  let totals := codes.foldl Totals.observe totals
  { totals with
    items := totals.items + items
    finiteTerms := totals.finiteTerms + reported.terms
    butterflies := totals.butterflies + reported.butterflies
    cudaElapsed := totals.cudaElapsed + reported.elapsed }

/-! ## The writer -/

/-- A frame of the service stream: its header, its binding, and the calls in which its sign codes
reach the payload writer. -/
structure ServiceFrame where
  magic : Bytes
  version : Int
  q : Int
  batchCount : Int
  runDft : Int
  frequencyStart : Int
  frequencyCount : Int
  reported : Reported
  statusOr : Int
  reserved : Int
  binding : Bytes × Bytes × Int × Int × Int × Int
  writes : List (List Int)
  deriving DecidableEq, Repr

def ServiceFrame.codes (frame : ServiceFrame) : List Int := frame.writes.flatten

/-- The writer's variables: what it wrote, which is also what its stream digest covers. -/
structure PackState where
  stream : Bytes := []
  previousFrame : Bytes := ZERO_DIGEST
  totals : Totals := {}
  deriving DecidableEq, Repr

/-- The trailer of a frame. -/
def frameTrailer (ordinal : Nat) (payload completeFrame : Bytes) : Checked Bytes :=
  structPack FRAME_TRAILER
    (TRAILER_MAGIC, FORMAT_VERSION_V1, 0, ordinal, payload.length, Sha256.digest payload,
      completeFrame, ())

/-- The loop body of `pack_factored_service_stream_v1`. -/
def packFrame (prepared : Prepared) (location : PackingLocation) (ordinal : Nat) (batch : Batch)
    (frame : ServiceFrame) (s : PackState) : Checked PackState := do
  failIf (frame.magic ≠ REDUCED_SERVICE_OUTPUT_MAGIC ∨ frame.version ≠ FORMAT_VERSION
      ∨ frame.q ≠ prepared.plan.q ∨ frame.batchCount ≠ batch.characters ∨ frame.runDft ≠ 1
      ∨ frame.frequencyStart ≠ prepared.sampleStart ∨ frame.frequencyCount ≠ prepared.sampleCount
      ∨ frame.binding ≠ (prepared.plan.sha256, batch.sha256, batch.characterStart,
          batch.campaignCharacterCount, batch.batchOrdinal, batch.campaignBatchCount)
      ∨ frame.reported.butterflies ≠ expectedButterflies prepared batch
      ∨ frame.statusOr ≠ 0 ∨ frame.reserved ≠ 0)
    "TGDBSQR3 packed frame identity, span, binding, or aggregate status differs"
  let (head, binding, digests) ← frameBytes prepared batch frame.reported s.previousFrame location
  -- the source stream gives the frame exactly its items, in calls of any size
  failIf (frame.codes.length ≠ frameItems prepared batch) "truncated TGDBSQR3 item chunk"
  let writer ← frame.writes.foldlM PayloadWriter.append {}
  let payload := writer.finish
  failIf (payload.length ≠ (frameItems prepared batch + 3) / 4)
    "internal packed payload byte count differs"
  let completeFrame := Sha256.digest (FRAME_DOMAIN ++ head ++ binding ++ digests ++ payload)
  let trailer ← frameTrailer ordinal payload completeFrame
  pure
    { stream := s.stream ++ (head ++ binding ++ digests ++ payload ++ trailer)
      previousFrame := completeFrame
      totals := s.totals.frame frame.codes (frameItems prepared batch) frame.reported }

/-- The loop over the batches. -/
def packFrames (prepared : Prepared) (location : PackingLocation) :
    Nat → List Batch → List ServiceFrame → PackState → Checked PackState
  | ordinal, batch :: batches, frame :: frames, s => do
      let s ← packFrame prepared location ordinal batch frame s
      packFrames prepared location (ordinal + 1) batches frames s
  | _, _ :: _, [], _ => .error (.failed "truncated TGDBSQR3 header")
  | _, [], frames, s => do
      failIf (frames ≠ []) "TGDBSQR3 source stream has trailing bytes"
      pure s

/-- The items of the whole campaign. -/
def expectedItems (prepared : Prepared) : Nat :=
  prepared.plan.campaignCharacterCount * prepared.sampleCount

/-- The terminal record. -/
def streamEnd (prepared : Prepared) (items : Nat) (lastFrame stream : Bytes) : Checked Bytes :=
  structPack STREAM_END
    (END_MAGIC, FORMAT_VERSION_V1, 0, prepared.batches.length, items, lastFrame,
      Sha256.digest stream, ())

/-- `pack_factored_service_stream_v1` from the sign codes on: the stream and its totals. The source
packs at the host; the service packs the same frames on the device. -/
def packStream (prepared : Prepared) (location : PackingLocation) (frames : List ServiceFrame) :
    Checked (Bytes × Totals) := do
  let s ← packFrames prepared location 0 prepared.batches frames {}
  failIf (s.totals.items ≠ expectedItems prepared
      ∨ s.totals.ambiguous + s.totals.negative + s.totals.positive ≠ expectedItems prepared)
    "TGDBSQR3 packed source coverage totals differ"
  let terminal ← streamEnd prepared s.totals.items s.previousFrame s.stream
  pure (s.stream ++ terminal, s.totals)

/-! ## The reader -/

/-- The reader's variables: what is left of the stream, and what was hashed of it. -/
structure ReadState where
  stream : Bytes
  whole : Bytes := []
  previousFrame : Bytes := ZERO_DIGEST
  frameCount : Nat := 0
  totals : Totals := {}
  deriving DecidableEq, Repr

/-- The loop body of `code_chunks`. -/
def readFrame (prepared : Prepared) (location : PackingLocation) (chunkItems ordinal : Nat)
    (batch : Batch) (s : ReadState) : Checked (List (List Int) × ReadState) := do
  let (head, stream) ← readExact s.stream (size FRAME_PREFIX) "TGDBSPK1 prefix"
  let (binding, stream) ← readExact stream (size FRAME_BATCH_BINDING) "TGDBSPK1 batch binding"
  let (digests, stream) ← readExact stream (size FRAME_DIGESTS) "TGDBSPK1 digest binding"
  let (magic, version, mode, q, bits, batchCount, frequencyStart, frequencyCount, firstT, stopT,
    payloadBytes, terms, butterflies, elapsed, statusOr, reserved, _) := read FRAME_PREFIX head
  let reported : Reported := ⟨terms, butterflies, elapsed⟩
  let (expectedPrefix, expectedBinding, expectedDigests) ←
    frameBytes prepared batch reported s.previousFrame location
  let expectedMode ← modeOf prepared.pins location
  failIf (magic ≠ FRAME_MAGIC ∨ version ≠ FORMAT_VERSION_V1 ∨ mode ≠ expectedMode
      ∨ q ≠ prepared.plan.q ∨ bits ≠ BITS_PER_CODE ∨ batchCount ≠ batch.characters
      ∨ frequencyStart ≠ prepared.sampleStart ∨ frequencyCount ≠ prepared.sampleCount
      ∨ firstT ≠ prepared.pins.firstTNumerator ∨ stopT ≠ prepared.pins.stopTNumerator
      ∨ payloadBytes ≠ ((frameItems prepared batch + 3) / 4 : Nat)
      ∨ butterflies ≠ expectedButterflies prepared batch ∨ statusOr ≠ 0 ∨ reserved ≠ 0
      ∨ head ≠ expectedPrefix ∨ binding ≠ expectedBinding ∨ digests ≠ expectedDigests)
    "TGDBSPK1 frame identity, mode, span, work, status, or digest binding differs"
  let r ← readPayload chunkItems (frameItems prepared batch) payloadBytes.toNat stream
  failIf (r.remainingItems ≠ 0) "TGDBSPK1 payload does not cover its exact frame"
  let (trailer, stream) ← readExact r.stream (size FRAME_TRAILER) "TGDBSPK1 frame trailer"
  let (trailerMagic, trailerVersion, trailerReserved, trailerOrdinal, trailerPayloadBytes,
    trailerPayloadSha256, trailerFrameSha256, _) := read FRAME_TRAILER trailer
  let completeFrame := Sha256.digest (FRAME_DOMAIN ++ head ++ binding ++ digests ++ r.payload)
  failIf (trailerMagic ≠ TRAILER_MAGIC ∨ trailerVersion ≠ FORMAT_VERSION_V1
      ∨ trailerReserved ≠ 0 ∨ trailerOrdinal ≠ ordinal ∨ trailerPayloadBytes ≠ payloadBytes
      ∨ trailerPayloadSha256 ≠ Sha256.digest r.payload ∨ trailerFrameSha256 ≠ completeFrame)
    "TGDBSPK1 frame trailer or payload digest differs"
  pure (r.chunks,
    { stream := stream
      whole := s.whole ++ (head ++ binding ++ digests ++ r.payload ++ trailer)
      previousFrame := completeFrame
      frameCount := s.frameCount + 1
      totals := s.totals.frame r.chunks.flatten (frameItems prepared batch) reported })

/-- The loop over the batches. -/
def readFrames (prepared : Prepared) (location : PackingLocation) (chunkItems : Nat) :
    Nat → List Batch → ReadState → Checked (List (List Int) × ReadState)
  | _, [], s => pure ([], s)
  | ordinal, batch :: batches, s => do
      let (chunks, s) ← readFrame prepared location chunkItems ordinal batch s
      let (rest, s) ← readFrames prepared location chunkItems (ordinal + 1) batches s
      pure (chunks ++ rest, s)

/-- `code_chunks`, run to its end: the chunks that it yields, its totals and the stream's digest. -/
def codeChunks (prepared : Prepared) (location : PackingLocation) (chunkItems : Nat)
    (stream : Bytes) : Checked (List (List Int) × Totals × String) := do
  let (chunks, s) ← readFrames prepared location chunkItems 0 prepared.batches { stream }
  let (terminal, stream) ← readExact s.stream (size STREAM_END) "TGDBSPK1 terminal record"
  let (endMagic, endVersion, endReserved, endFrames, endItems, endLastFrame, endBodySha256, _) :=
    read STREAM_END terminal
  failIf (endMagic ≠ END_MAGIC ∨ endVersion ≠ FORMAT_VERSION_V1 ∨ endReserved ≠ 0
      ∨ endFrames ≠ prepared.batches.length ∨ endItems ≠ expectedItems prepared
      ∨ endLastFrame ≠ s.previousFrame ∨ endBodySha256 ≠ Sha256.digest s.whole)
    "TGDBSPK1 terminal coverage or body digest differs"
  failIf (stream ≠ []) "TGDBSPK1 stream has trailing bytes after terminal record"
  failIf (s.frameCount ≠ prepared.batches.length ∨ s.totals.items ≠ expectedItems prepared
      ∨ s.totals.ambiguous + s.totals.negative + s.totals.positive ≠ expectedItems prepared)
    "TGDBSPK1 complete coverage totals differ"
  pure (chunks, s.totals, Sha256.hexdigest (s.whole ++ terminal))

end AttestedCompute.SmallQ
