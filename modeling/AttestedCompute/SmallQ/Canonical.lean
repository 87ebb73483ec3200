import AttestedCompute.SmallQ.Stream

/-!
# One stream for the codes

What a frame is, said once: its bytes, as a function of what it reports and of its codes. The writer
writes exactly such frames and the reader takes exactly such frames, so what one writes the other
reads back, and what the reader accepts the writer would have written.
-/

namespace AttestedCompute.SmallQ

open Fallible PackedStruct

theorem structPack_ok {format : Format} {record : Record format} {bytes : Bytes} :
    structPack format record = .ok bytes ↔ pack format record = some bytes := packOr_ok

/-- The codes of one frame and what it reports. -/
structure FrameCodes where
  reported : Reported
  codes : List Int

/-- `block` is the frame of these codes, and `next` its digest. -/
structure IsFrame (prepared : Prepared) (location : PackingLocation) (ordinal : Nat)
    (batch : Batch) (previous : Bytes) (frame : FrameCodes) (block next : Bytes) : Prop where
  butterflies : frame.reported.butterflies = expectedButterflies prepared batch
  items : frame.codes.length = frameItems prepared batch
  valid : ∀ code ∈ frame.codes, IsSignCode code
  bytes : ∃ head binding digests trailer,
    frameBytes prepared batch frame.reported previous location = .ok (head, binding, digests) ∧
    next = Sha256.digest (FRAME_DOMAIN ++ head ++ binding ++ digests ++ payload frame.codes) ∧
    frameTrailer ordinal (payload frame.codes) next = .ok trailer ∧
    block = head ++ binding ++ digests ++ payload frame.codes ++ trailer

/-- The frames of a run, each chained to the one before. -/
def AreFrames (prepared : Prepared) (location : PackingLocation) :
    Nat → List Batch → Bytes → List FrameCodes → Bytes → Bytes → Prop
  | ordinal, batch :: batches, previous, frame :: frames, stream, last =>
      ∃ block rest next, IsFrame prepared location ordinal batch previous frame block next ∧
        stream = block ++ rest ∧
        AreFrames prepared location (ordinal + 1) batches next frames rest last
  | _, [], previous, [], stream, last => stream = [] ∧ last = previous
  | _, _, _, _, _, _ => False

/-! ## The writer -/

def ServiceFrame.frameCodes (frame : ServiceFrame) : FrameCodes := ⟨frame.reported, frame.codes⟩

/-- The header of a service frame names the batch. -/
def ServiceFrame.Binds (prepared : Prepared) (batch : Batch) (frame : ServiceFrame) : Prop :=
  frame.magic = REDUCED_SERVICE_OUTPUT_MAGIC ∧ frame.version = FORMAT_VERSION ∧
    frame.q = prepared.plan.q ∧ frame.batchCount = batch.characters ∧ frame.runDft = 1 ∧
    frame.frequencyStart = prepared.sampleStart ∧ frame.frequencyCount = prepared.sampleCount ∧
    frame.binding = (prepared.plan.sha256, batch.sha256, batch.characterStart,
      batch.campaignCharacterCount, batch.batchOrdinal, batch.campaignBatchCount) ∧
    frame.statusOr = 0 ∧ frame.reserved = 0

/-- The writer's state after a frame. -/
def PackState.after (s : PackState) (items : Nat) (frame : FrameCodes) (block next : Bytes) :
    PackState :=
  ⟨s.stream ++ block, next, s.totals.frame frame.codes items frame.reported⟩

theorem packFrame_ok {prepared : Prepared} {location : PackingLocation} {ordinal : Nat}
    {batch : Batch} {frame : ServiceFrame} {s s' : PackState} :
    packFrame prepared location ordinal batch frame s = .ok s' ↔
      frame.Binds prepared batch ∧ ∃ block next,
        IsFrame prepared location ordinal batch s.previousFrame frame.frameCodes block next ∧
        s' = s.after (frameItems prepared batch) frame.frameCodes block next := by
  simp only [packFrame, bind_ok, failIf_ok, not_not, not_or, Prod.exists, pure_ok, foldlM_append]
  constructor
  · intro h
    obtain ⟨_, ⟨h1, h2, h3, h4, h5, h6, h7, h8, hbutterflies, h9, h10⟩, head, binding, digests,
      hframe, _, hitems, writer, hwriter, _, _, trailer, htrailer, rfl⟩ := h
    obtain ⟨hvalid, hpayload⟩ := append_ok hwriter
    rw [hpayload] at htrailer ⊢
    exact ⟨⟨h1, h2, h3, h4, h5, h6, h7, h8, h9, h10⟩, _, _,
      ⟨hbutterflies, hitems, hvalid, head, binding, digests, trailer, hframe, rfl, htrailer, rfl⟩,
      rfl⟩
  · intro h
    obtain ⟨⟨h1, h2, h3, h4, h5, h6, h7, h8, h9, h10⟩, block, next,
      ⟨hbutterflies, hitems, hvalid, head, binding, digests, trailer, hframe, rfl, htrailer, rfl⟩,
      rfl⟩ := h
    obtain ⟨writer, hwriter⟩ := exists_append {} hvalid
    obtain ⟨_, hpayload⟩ := append_ok hwriter
    have hlength : writer.finish.length = (frameItems prepared batch + 3) / 4 := by
      rw [hpayload, length_payload, hitems]
    refine ⟨(), ⟨h1, h2, h3, h4, h5, h6, h7, h8, hbutterflies, h9, h10⟩, head, binding, digests,
      hframe, (), hitems, writer, hwriter, (), hlength, trailer, ?_, ?_⟩
    · rw [hpayload]
      exact htrailer
    · rw [hpayload]
      rfl

/-! ## The reader -/

/-- What the reader finds at the front of a frame. -/
theorem read_frameBytes {prepared : Prepared} {location : PackingLocation} {batch : Batch}
    {reported : Reported} {previous head binding digests : Bytes}
    (h : frameBytes prepared batch reported previous location = .ok (head, binding, digests)) :
    head.length = size FRAME_PREFIX ∧ binding.length = size FRAME_BATCH_BINDING ∧
      digests.length = size FRAME_DIGESTS ∧ ∃ mode, modeOf prepared.pins location = .ok mode ∧
      read FRAME_PREFIX head = prefixRecord prepared batch mode reported := by
  simp only [frameBytes, bind_ok, structPack_ok, pure_ok, Prod.mk.injEq] at h
  obtain ⟨mode, hmode, _, hhead, _, hbinding, _, _, _, _, _, _, _, _, _, _, _, hdigests, rfl, rfl,
    rfl⟩ := h
  have hexact : Exact FRAME_PREFIX (prefixRecord prepared batch mode reported) := ⟨rfl, trivial⟩
  exact ⟨length_pack hhead, length_pack hbinding, length_pack hdigests, mode, hmode,
    read_of_pack hexact hhead⟩

/-- A closing record, field by field. -/
theorem closing_ok {magic : Bytes} {version reserved first second : Int} {digest digest' : Bytes}
    {bytes : Bytes} (hmagic : magic.length = 8) (hdigest : digest.length = 32)
    (hdigest' : digest'.length = 32) :
    structPack FRAME_TRAILER (magic, version, reserved, first, second, digest, digest', ()) =
        .ok bytes ↔
      bytes.length = size FRAME_TRAILER ∧ (read FRAME_TRAILER bytes).1 = magic ∧
        (read FRAME_TRAILER bytes).2.1 = version ∧ (read FRAME_TRAILER bytes).2.2.1 = reserved ∧
        (read FRAME_TRAILER bytes).2.2.2.1 = first ∧ (read FRAME_TRAILER bytes).2.2.2.2.1 = second ∧
        (read FRAME_TRAILER bytes).2.2.2.2.2.1 = digest ∧
        (read FRAME_TRAILER bytes).2.2.2.2.2.2.1 = digest' := by
  have hexact : Exact FRAME_TRAILER
      (magic, version, reserved, first, second, digest, digest', ()) :=
    ⟨hmagic, hdigest, hdigest', trivial⟩
  rw [structPack_ok, pack_eq_some hexact]
  constructor
  · intro h
    obtain ⟨hlength, _, hread⟩ := h
    rw [hread]
    exact ⟨hlength, rfl, rfl, rfl, rfl, rfl, rfl, rfl⟩
  · intro h
    obtain ⟨hlength, h1, h2, h3, h4, h5, h6, h7⟩ := h
    refine ⟨hlength, trivial, ?_⟩
    rw [← h1, ← h2, ← h3, ← h4, ← h5, ← h6, ← h7]

/-- The reader's state after a frame. -/
def ReadState.after (s : ReadState) (items : Nat) (frame : FrameCodes) (block next rest : Bytes) :
    ReadState :=
  ⟨rest, s.whole ++ block, next, s.frameCount + 1,
    s.totals.frame frame.codes items frame.reported⟩

theorem readFrame_sound {prepared : Prepared} {location : PackingLocation}
    {chunkItems ordinal : Nat} {batch : Batch} {s s' : ReadState} {chunks : List (List Int)}
    (h : readFrame prepared location chunkItems ordinal batch s = .ok (chunks, s')) :
    ∃ reported block next rest,
      IsFrame prepared location ordinal batch s.previousFrame ⟨reported, chunks.flatten⟩ block next ∧
      s.stream = block ++ rest ∧
      s' = s.after (frameItems prepared batch) ⟨reported, chunks.flatten⟩ block next rest := by
  simp only [readFrame, bind_ok, Prod.exists, readExact_ok, failIf_ok, not_not, not_or, pure_ok,
    Prod.mk.injEq] at h
  obtain ⟨head, _, ⟨_, hstream⟩, binding, _, ⟨_, rfl⟩, digests, _, ⟨_, rfl⟩, _, _, _, hframe, _, _,
    _, ⟨_, _, _, _, _, _, _, _, _, _, hbytes, hbutterflies, _, _, rfl, rfl, rfl⟩, r, hr, _, _,
    trailer, rest, ⟨hlength, hrest⟩, _, ⟨h1, h2, h3, h4, h5, h6, h7⟩, rfl, rfl⟩ := h
  rw [hbytes, Int.toNat_natCast] at hr
  obtain ⟨_, hitems, hvalid, hpayload, rfl⟩ := readPayload_sound hr
  have hsize : r.payload.length = (frameItems prepared batch + 3) / 4 := by
    rw [hpayload, length_payload, hitems]
  have htrailer : frameTrailer ordinal r.payload
      (Sha256.digest (FRAME_DOMAIN ++ head ++ binding ++ digests ++ r.payload)) = .ok trailer := by
    refine (closing_ok rfl (Sha256.length_digest _) (Sha256.length_digest _)).mpr
      ⟨hlength, h1, h2, h3, h4, ?_, h6, h7⟩
    rw [h5, hbytes, hsize]
  refine ⟨_, head ++ binding ++ digests ++ r.payload ++ trailer, _, rest, ⟨hbutterflies, hitems,
    hvalid, head, binding, digests, trailer, hframe, ?_, ?_, ?_⟩, ?_, rfl⟩
  · rw [← hpayload]
  · rw [← hpayload]
    exact htrailer
  · rw [← hpayload]
  · rw [hstream, hrest]
    simp only [List.append_assoc]

theorem readFrame_complete {prepared : Prepared} {location : PackingLocation} {ordinal : Nat}
    {batch : Batch} {frame : FrameCodes} {block next : Bytes} (chunkItems : Nat) {s : ReadState}
    (h : IsFrame prepared location ordinal batch s.previousFrame frame block next) {rest : Bytes}
    (hstream : s.stream = block ++ rest) :
    ∃ chunks, chunks.flatten = frame.codes ∧
      readFrame prepared location chunkItems ordinal batch s =
        .ok (chunks, s.after (frameItems prepared batch) frame block next rest) := by
  obtain ⟨hbutterflies, hitems, hvalid, head, binding, digests, trailer, hframe, rfl, htrailer,
    rfl⟩ := h
  obtain ⟨chunks, hchunks, hread⟩ := readPayload_complete chunkItems (trailer ++ rest) hvalid
  obtain ⟨hhead, hbinding, hdigests, mode, hmode, hread'⟩ := read_frameBytes hframe
  obtain ⟨hlength, h1, h2, h3, h4, h5, h6, h7⟩ :=
    (closing_ok rfl (Sha256.length_digest _) (Sha256.length_digest _)).mp htrailer
  rw [hitems] at hread
  refine ⟨chunks, hchunks, ?_⟩
  have hfront : s.stream = head ++ (binding ++ (digests ++ (payload frame.codes ++
      (trailer ++ rest)))) := by
    rw [hstream]
    simp only [List.append_assoc]
  unfold readFrame
  refine bind_ok.mpr ⟨_, readExact_ok.mpr ⟨hhead, hfront⟩, ?_⟩
  refine bind_ok.mpr ⟨_, readExact_ok.mpr ⟨hbinding, rfl⟩, ?_⟩
  refine bind_ok.mpr ⟨_, readExact_ok.mpr ⟨hdigests, rfl⟩, ?_⟩
  simp only [hread', prefixRecord]
  refine bind_ok.mpr ⟨_, hframe, ?_⟩
  refine bind_ok.mpr ⟨_, hmode, ?_⟩
  refine bind_ok.mpr ⟨(), failIf_ok.mpr ?_, ?_⟩
  · simp [hbutterflies]
  refine bind_ok.mpr ⟨_, hread, ?_⟩
  refine bind_ok.mpr ⟨(), failIf_ok.mpr (not_not.mpr rfl), ?_⟩
  refine bind_ok.mpr ⟨_, readExact_ok.mpr ⟨hlength, rfl⟩, ?_⟩
  refine bind_ok.mpr ⟨(), failIf_ok.mpr ?_, ?_⟩
  · simp only [not_or, not_not]
    refine ⟨h1, h2, h3, h4, ?_, h6, h7⟩
    rw [h5, length_payload, hitems]
  · rw [hchunks]
    rfl

/-! ## Runs -/

/-- The totals after all frames. -/
def Totals.frames (prepared : Prepared) (totals : Totals) (batches : List Batch)
    (frames : List FrameCodes) : Totals :=
  (batches.zip frames).foldl
    (fun totals p => totals.frame p.2.codes (frameItems prepared p.1) p.2.reported) totals

/-- The writer's state after all frames. -/
def PackState.afterAll (prepared : Prepared) (s : PackState) (batches : List Batch)
    (frames : List FrameCodes) (stream last : Bytes) : PackState :=
  ⟨s.stream ++ stream, last, s.totals.frames prepared batches frames⟩

theorem packFrames_ok {prepared : Prepared} {location : PackingLocation} {ordinal : Nat}
    {batches : List Batch} {frames : List ServiceFrame} {s s' : PackState} :
    packFrames prepared location ordinal batches frames s = .ok s' ↔
      List.Forall₂ (ServiceFrame.Binds prepared) batches frames ∧ ∃ stream last,
        AreFrames prepared location ordinal batches s.previousFrame
          (frames.map ServiceFrame.frameCodes) stream last ∧
        s' = s.afterAll prepared batches (frames.map ServiceFrame.frameCodes) stream last := by
  induction batches generalizing ordinal frames s with
  | nil =>
      cases frames with
      | nil =>
          simp only [packFrames, bind_ok, failIf_ok, not_not, pure_ok]
          constructor
          · intro h
            obtain ⟨_, _, rfl⟩ := h
            refine ⟨List.Forall₂.nil, [], _, ⟨rfl, rfl⟩, ?_⟩
            simp [PackState.afterAll, Totals.frames]
          · intro h
            obtain ⟨_, _, _, ⟨rfl, rfl⟩, rfl⟩ := h
            refine ⟨(), trivial, ?_⟩
            simp [PackState.afterAll, Totals.frames]
      | cons frame frames =>
          simp only [packFrames, bind_ok, failIf_ok, not_not]
          constructor
          · intro h
            obtain ⟨_, h, _⟩ := h
            cases h
          · intro h
            cases h.1
  | cons batch batches ih =>
      cases frames with
      | nil =>
          constructor
          · intro h
            cases h
          · intro h
            cases h.1
      | cons frame frames =>
          simp only [packFrames, bind_ok, packFrame_ok, ih]
          constructor
          · intro h
            obtain ⟨_, ⟨hbinds, block, next, hframe, rfl⟩, hall, stream, last, hframes, rfl⟩ := h
            refine ⟨List.Forall₂.cons hbinds hall, block ++ stream, last,
              ⟨block, stream, next, hframe, rfl, hframes⟩, ?_⟩
            simp only [PackState.afterAll, PackState.after, List.append_assoc]
            rfl
          · intro h
            obtain ⟨hall, _, last, ⟨block, stream, next, hframe, rfl, hframes⟩, rfl⟩ := h
            cases hall with
            | cons hbinds hall =>
                refine ⟨_, ⟨hbinds, block, next, hframe, rfl⟩, hall, stream, last, hframes, ?_⟩
                simp only [PackState.afterAll, PackState.after, List.append_assoc]
                rfl

/-- The reader's state after all frames. -/
def ReadState.afterAll (prepared : Prepared) (s : ReadState) (batches : List Batch)
    (frames : List FrameCodes) (stream last rest : Bytes) : ReadState :=
  ⟨rest, s.whole ++ stream, last, s.frameCount + batches.length,
    s.totals.frames prepared batches frames⟩

/-- The codes of all frames. -/
def allCodes (frames : List FrameCodes) : List Int := frames.flatMap FrameCodes.codes

theorem readFrames_sound {prepared : Prepared} {location : PackingLocation}
    {chunkItems ordinal : Nat} {batches : List Batch} {s s' : ReadState} {chunks : List (List Int)}
    (h : readFrames prepared location chunkItems ordinal batches s = .ok (chunks, s')) :
    ∃ frames stream last rest,
      AreFrames prepared location ordinal batches s.previousFrame frames stream last ∧
      allCodes frames = chunks.flatten ∧ s.stream = stream ++ rest ∧
      s' = s.afterAll prepared batches frames stream last rest := by
  induction batches generalizing ordinal s s' chunks with
  | nil =>
      rw [readFrames, pure_ok, Prod.mk.injEq] at h
      obtain ⟨rfl, rfl⟩ := h
      refine ⟨[], [], s.previousFrame, s.stream, ⟨rfl, rfl⟩, rfl, rfl, ?_⟩
      simp [ReadState.afterAll, Totals.frames]
  | cons batch batches ih =>
      simp only [readFrames, bind_ok, Prod.exists, pure_ok, Prod.mk.injEq] at h
      obtain ⟨first, next, hfirst, more, _, hmore, rfl, rfl⟩ := h
      obtain ⟨reported, block, digest, _, hframe, hstream, rfl⟩ := readFrame_sound hfirst
      obtain ⟨frames, stream, last, rest, hframes, hcodes, hrest, rfl⟩ := ih hmore
      refine ⟨⟨reported, first.flatten⟩ :: frames, block ++ stream, last, rest,
        ⟨block, stream, digest, hframe, rfl, hframes⟩, ?_, ?_, ?_⟩
      · rw [allCodes, List.flatMap_cons, List.flatten_append, ← hcodes]
        rfl
      · rw [hstream, List.append_assoc]
        exact congrArg (block ++ ·) hrest
      · simp only [ReadState.afterAll, ReadState.after, List.append_assoc, List.length_cons]
        rw [Nat.add_assoc, Nat.add_comm 1]
        rfl

theorem readFrames_complete {prepared : Prepared} {location : PackingLocation} (chunkItems : Nat)
    {ordinal : Nat} {batches : List Batch} {frames : List FrameCodes} {s : ReadState}
    {stream last rest : Bytes}
    (h : AreFrames prepared location ordinal batches s.previousFrame frames stream last)
    (hstream : s.stream = stream ++ rest) :
    ∃ chunks, chunks.flatten = allCodes frames ∧
      readFrames prepared location chunkItems ordinal batches s =
        .ok (chunks, s.afterAll prepared batches frames stream last rest) := by
  induction batches generalizing ordinal s frames stream with
  | nil =>
      cases frames with
      | nil =>
          obtain ⟨rfl, rfl⟩ := h
          refine ⟨[], rfl, ?_⟩
          rw [List.nil_append] at hstream
          simp only [readFrames, ReadState.afterAll, Totals.frames, ← hstream, List.append_nil]
          rfl
      | cons frame frames => exact h.elim
  | cons batch batches ih =>
      cases frames with
      | nil => exact h.elim
      | cons frame frames =>
          obtain ⟨block, stream, next, hframe, rfl, hframes⟩ := h
          rw [List.append_assoc] at hstream
          obtain ⟨first, hfirst, hread⟩ := readFrame_complete chunkItems hframe hstream
          obtain ⟨more, hmore, hreads⟩ := @ih (ordinal + 1) frames
            (s.after (frameItems prepared batch) frame block next (stream ++ rest)) stream hframes
            rfl
          refine ⟨first ++ more, ?_, ?_⟩
          · rw [List.flatten_append, hfirst, hmore]
            rfl
          · simp only [readFrames, bind_ok, Prod.exists, pure_ok, Prod.mk.injEq]
            refine ⟨_, _, hread, _, _, hreads, rfl, ?_⟩
            simp only [ReadState.afterAll, ReadState.after, List.append_assoc, List.length_cons]
            rw [Nat.add_assoc, Nat.add_comm 1]
            rfl

/-! ## The whole stream -/

/-- The terminal record closes a stream of these frames. -/
structure IsStream (prepared : Prepared) (location : PackingLocation) (frames : List FrameCodes)
    (totals : Totals) (stream : Bytes) : Prop where
  covers : totals.items = expectedItems prepared ∧
    totals.ambiguous + totals.negative + totals.positive = expectedItems prepared
  totals : totals = Totals.frames prepared {} prepared.batches frames
  bytes : ∃ body last terminal,
    AreFrames prepared location 0 prepared.batches ZERO_DIGEST frames body last ∧
    streamEnd prepared (expectedItems prepared) last body = .ok terminal ∧ stream = body ++ terminal

theorem packStream_ok {prepared : Prepared} {location : PackingLocation}
    {frames : List ServiceFrame} {stream : Bytes} {totals : Totals} :
    packStream prepared location frames = .ok (stream, totals) ↔
      List.Forall₂ (ServiceFrame.Binds prepared) prepared.batches frames ∧
        IsStream prepared location (frames.map ServiceFrame.frameCodes) totals stream := by
  simp only [packStream, bind_ok, packFrames_ok, failIf_ok, not_or, not_not, pure_ok, Prod.mk.injEq]
  constructor
  · intro h
    obtain ⟨_, ⟨hbinds, body, last, hframes, rfl⟩, _, hcovers, terminal, hend, rfl, rfl⟩ := h
    refine ⟨hbinds, hcovers, rfl, body, last, terminal, hframes, ?_, rfl⟩
    rw [← hcovers.1]
    exact hend
  · intro h
    obtain ⟨hbinds, hcovers, rfl, body, last, terminal, hframes, hend, rfl⟩ := h
    refine ⟨_, ⟨hbinds, body, last, hframes, rfl⟩, (), hcovers, terminal, ?_, rfl, rfl⟩
    rw [← hcovers.1] at hend
    exact hend

theorem length_last {prepared : Prepared} {location : PackingLocation} {ordinal : Nat}
    {batches : List Batch} {previous : Bytes} {frames : List FrameCodes} {stream last : Bytes}
    (h : AreFrames prepared location ordinal batches previous frames stream last)
    (hprevious : previous.length = 32) : last.length = 32 := by
  induction batches generalizing ordinal previous frames stream with
  | nil =>
      cases frames with
      | nil => rw [h.2, hprevious]
      | cons frame frames => exact h.elim
  | cons batch batches ih =>
      cases frames with
      | nil => exact h.elim
      | cons frame frames =>
          obtain ⟨block, rest, next, hframe, _, hframes⟩ := h
          obtain ⟨_, _, _, _, _, rfl, _⟩ := hframe.bytes
          exact ih hframes (Sha256.length_digest _)

theorem codeChunks_sound {prepared : Prepared} {location : PackingLocation} {chunkItems : Nat}
    {stream : Bytes} {chunks : List (List Int)} {totals : Totals} {digest : String}
    (h : codeChunks prepared location chunkItems stream = .ok (chunks, totals, digest)) :
    ∃ frames, allCodes frames = chunks.flatten ∧
      IsStream prepared location frames totals stream := by
  simp only [codeChunks, bind_ok, Prod.exists, readExact_ok, failIf_ok, not_or, not_not, pure_ok,
    Prod.mk.injEq] at h
  obtain ⟨_, s, hreads, terminal, _, ⟨hlength, hrest⟩, _, ⟨h1, h2, h3, h4, h5, h6, h7⟩, _, rfl, _,
    ⟨_, hcovers⟩, rfl, rfl, _⟩ := h
  obtain ⟨frames, body, last, rest, hframes, hcodes, hstream, rfl⟩ := readFrames_sound hreads
  have hlast := length_last hframes List.length_replicate
  refine ⟨frames, hcodes, hcovers, rfl, body, last, terminal, hframes, ?_, ?_⟩
  · exact (closing_ok rfl hlast (Sha256.length_digest _)).mpr
      ⟨hlength, h1, h2, h3, h4, h5, h6, h7⟩
  · rw [List.append_nil] at hrest
    rw [← hrest]
    exact hstream

theorem codeChunks_complete {prepared : Prepared} {location : PackingLocation} (chunkItems : Nat)
    {stream : Bytes} {frames : List FrameCodes} {totals : Totals}
    (h : IsStream prepared location frames totals stream) :
    ∃ chunks, chunks.flatten = allCodes frames ∧
      codeChunks prepared location chunkItems stream =
        .ok (chunks, totals, Sha256.hexdigest stream) := by
  obtain ⟨hcovers, rfl, body, last, terminal, hframes, hend, rfl⟩ := h
  have hlast := length_last hframes List.length_replicate
  obtain ⟨chunks, hchunks, hreads⟩ := @readFrames_complete prepared location chunkItems 0
    prepared.batches frames { stream := body ++ terminal } body last terminal hframes rfl
  obtain ⟨hlength, hfields⟩ := (closing_ok rfl hlast (Sha256.length_digest _)).mp hend
  refine ⟨chunks, hchunks, ?_⟩
  unfold codeChunks
  refine bind_ok.mpr ⟨_, hreads, ?_⟩
  refine bind_ok.mpr ⟨_, readExact_ok.mpr ⟨hlength, (List.append_nil _).symm⟩, ?_⟩
  refine bind_ok.mpr ⟨(), failIf_ok.mpr ?_, ?_⟩
  · simp only [not_or, not_not]
    exact hfields
  refine bind_ok.mpr ⟨(), failIf_ok.mpr (not_not.mpr rfl), ?_⟩
  refine bind_ok.mpr ⟨(), failIf_ok.mpr ?_, rfl⟩
  · simp only [not_or, not_not]
    exact ⟨Nat.zero_add _, hcovers⟩

/-! ## Writing again what was read -/

/-- A service frame for a batch, its codes in one call. -/
def serviceFrame (prepared : Prepared) (batch : Batch) (frame : FrameCodes) : ServiceFrame where
  magic := REDUCED_SERVICE_OUTPUT_MAGIC
  version := FORMAT_VERSION
  q := prepared.plan.q
  batchCount := batch.characters
  runDft := 1
  frequencyStart := prepared.sampleStart
  frequencyCount := prepared.sampleCount
  reported := frame.reported
  statusOr := 0
  reserved := 0
  binding := (prepared.plan.sha256, batch.sha256, batch.characterStart,
    batch.campaignCharacterCount, batch.batchOrdinal, batch.campaignBatchCount)
  writes := [frame.codes]

theorem frameCodes_serviceFrame (prepared : Prepared) (batch : Batch) (frame : FrameCodes) :
    (serviceFrame prepared batch frame).frameCodes = frame := by
  show FrameCodes.mk frame.reported ([frame.codes].flatten) = frame
  rw [List.flatten_singleton]

theorem exists_serviceFrames {prepared : Prepared} {location : PackingLocation} {ordinal : Nat}
    {batches : List Batch} {previous : Bytes} {frames : List FrameCodes} {stream last : Bytes}
    (h : AreFrames prepared location ordinal batches previous frames stream last) :
    ∃ services, List.Forall₂ (ServiceFrame.Binds prepared) batches services ∧
      services.map ServiceFrame.frameCodes = frames := by
  induction batches generalizing ordinal previous frames stream with
  | nil =>
      cases frames with
      | nil => exact ⟨[], List.Forall₂.nil, rfl⟩
      | cons frame frames => exact h.elim
  | cons batch batches ih =>
      cases frames with
      | nil => exact h.elim
      | cons frame frames =>
          obtain ⟨_, _, _, _, _, hframes⟩ := h
          obtain ⟨services, hbinds, hservices⟩ := ih hframes
          refine ⟨serviceFrame prepared batch frame :: services, List.Forall₂.cons ?_ hbinds, ?_⟩
          · exact ⟨rfl, rfl, rfl, rfl, rfl, rfl, rfl, rfl, rfl, rfl⟩
          · rw [List.map_cons, frameCodes_serviceFrame, hservices]

/-- The same frame, its codes in one call. -/
def ServiceFrame.unsplit (frame : ServiceFrame) : ServiceFrame := { frame with writes := [frame.codes] }

theorem packFrame_unsplit (prepared : Prepared) (location : PackingLocation) (ordinal : Nat)
    (batch : Batch) (frame : ServiceFrame) (s : PackState) :
    packFrame prepared location ordinal batch frame.unsplit s =
      packFrame prepared location ordinal batch frame s := by
  have hcodes : frame.unsplit.codes = frame.codes := List.flatten_singleton
  have hwrites : frame.unsplit.writes.foldlM PayloadWriter.append {} =
      frame.writes.foldlM PayloadWriter.append {} := by
    rw [foldlM_append, foldlM_append]
    exact congrArg _ hcodes
  unfold packFrame
  rw [hcodes, hwrites]
  rfl

theorem packFrames_unsplit (prepared : Prepared) (location : PackingLocation) (ordinal : Nat)
    (batches : List Batch) (frames : List ServiceFrame) (s : PackState) :
    packFrames prepared location ordinal batches (frames.map ServiceFrame.unsplit) s =
      packFrames prepared location ordinal batches frames s := by
  induction batches generalizing ordinal frames s with
  | nil =>
      cases frames with
      | nil => rfl
      | cons frame frames =>
          simp only [packFrames, List.map_cons]
          rfl
  | cons batch batches ih =>
      cases frames with
      | nil => rfl
      | cons frame frames =>
          rw [List.map_cons, packFrames, packFrames, packFrame_unsplit]
          exact congrArg (_ >>= ·) (funext fun s => ih (ordinal + 1) frames s)

theorem flatMap_codes (frames : List ServiceFrame) :
    frames.flatMap ServiceFrame.codes = allCodes (frames.map ServiceFrame.frameCodes) := by
  rw [allCodes, List.flatMap_map]
  rfl

/-- **The packed stream is canonical.** What the writer wrote the reader reads back, in pieces of any
size; the bytes do not depend on the calls in which the codes came; and a stream that the reader
takes to its end is the one that the writer makes of the codes that it gave. -/
theorem packed_stream_canonical (prepared : Prepared) (location : PackingLocation) :
    (∀ frames stream totals, packStream prepared location frames = .ok (stream, totals) →
      ∀ chunkItems, ∃ chunks, chunks.flatten = frames.flatMap ServiceFrame.codes ∧
        codeChunks prepared location chunkItems stream =
          .ok (chunks, totals, Sha256.hexdigest stream)) ∧
    (∀ frames frames' : List ServiceFrame,
      frames.map ServiceFrame.unsplit = frames'.map ServiceFrame.unsplit →
        packStream prepared location frames = packStream prepared location frames') ∧
    ∀ chunkItems stream chunks totals digest,
      codeChunks prepared location chunkItems stream = .ok (chunks, totals, digest) →
        ∃ frames, frames.flatMap ServiceFrame.codes = chunks.flatten ∧
          packStream prepared location frames = .ok (stream, totals) := by
  refine ⟨?_, ?_, ?_⟩
  · intro frames stream totals h chunkItems
    rw [flatMap_codes]
    exact codeChunks_complete chunkItems (packStream_ok.mp h).2
  · intro frames frames' h
    unfold packStream
    rw [← packFrames_unsplit _ _ _ _ frames, h, packFrames_unsplit]
  · intro chunkItems stream chunks totals digest h
    obtain ⟨frames, hcodes, hstream⟩ := codeChunks_sound h
    obtain ⟨_, _, _, hframes, _⟩ := hstream.bytes
    obtain ⟨services, hbinds, rfl⟩ := exists_serviceFrames hframes
    refine ⟨services, ?_, packStream_ok.mpr ⟨hbinds, hstream⟩⟩
    rw [flatMap_codes, hcodes]

/-- One character, three samples. -/
def smallPrepared : Prepared where
  plan := ⟨ZERO_DIGEST, 3, 8, ZERO_DIGEST, 1⟩
  batches := [⟨ZERO_DIGEST, 1, 0, 1, 0, 1⟩]
  controlSha256 := Bytes.hex ZERO_DIGEST
  controlReceiptSha256 := Bytes.hex ZERO_DIGEST
  rosterSha256 := Bytes.hex ZERO_DIGEST
  batchPartitionSha256 := ZERO_DIGEST
  sampleStart := 0
  sampleCount := 3
  pins := ⟨0, 15, false, Bytes.hex ZERO_DIGEST⟩
  sourceBinding := Bytes.hex ZERO_DIGEST

def smallFrame (writes : List (List Int)) : ServiceFrame :=
  { serviceFrame smallPrepared ⟨ZERO_DIGEST, 1, 0, 1, 0, 1⟩ ⟨⟨7, 12, 9⟩, []⟩ with writes }

theorem bytesDigest_hex {name : String} {raw : Bytes} (h : raw.length = 32) :
    bytesDigest name raw.hex = .ok raw := by
  rw [bytesDigest, Bytes.ofHexChars_hex]
  exact bind_ok.mpr ⟨(), failIf_ok.mpr (by simp [h]), rfl⟩

theorem packStream_small {writes : List (List Int)} (h : writes.flatten = [1, 0, 2]) :
    ∃ stream totals, packStream smallPrepared .host [smallFrame writes] = .ok (stream, totals) := by
  have hzero : ∀ name, bytesDigest name (Bytes.hex ZERO_DIGEST) = .ok ZERO_DIGEST :=
    fun name => bytesDigest_hex List.length_replicate
  obtain ⟨head, binding, digests, hframe⟩ : ∃ head binding digests, frameBytes smallPrepared
      ⟨ZERO_DIGEST, 1, 0, 1, 0, 1⟩ ⟨7, 12, 9⟩ ZERO_DIGEST .host = .ok (head, binding, digests) := by
    simp only [frameBytes, smallPrepared, hzero]
    exact ⟨_, _, _, rfl⟩
  have hcodes : (smallFrame writes).frameCodes = ⟨⟨7, 12, 9⟩, [1, 0, 2]⟩ := congrArg _ h
  obtain ⟨trailer, htrailer⟩ : ∃ trailer, frameTrailer 0 (payload [1, 0, 2])
      (Sha256.digest (FRAME_DOMAIN ++ head ++ binding ++ digests ++ payload [1, 0, 2])) =
        .ok trailer := by
    have hlength : (payload [1, 0, 2]).length = 1 := length_payload _
    rw [frameTrailer, hlength]
    exact ⟨_, rfl⟩
  have hvalid : ∀ code ∈ ([1, 0, 2] : List Int), IsSignCode code := by
    unfold IsSignCode
    decide
  have hend : ∀ last body : Bytes, ∃ terminal,
      streamEnd smallPrepared (expectedItems smallPrepared) last body = .ok terminal :=
    fun last body => by
      simp [streamEnd, structPack, packOr, pack, packUnsigned, FORMAT_VERSION_V1, expectedItems,
        smallPrepared, pure]
  obtain ⟨terminal, hterminal⟩ := hend (Sha256.digest (FRAME_DOMAIN ++ head ++ binding ++ digests ++
    payload [1, 0, 2])) (head ++ binding ++ digests ++ payload [1, 0, 2] ++ trailer)
  refine ⟨_, _, packStream_ok.mpr ⟨List.Forall₂.cons ⟨rfl, rfl, rfl, rfl, rfl, rfl, rfl, rfl, rfl,
    rfl⟩ List.Forall₂.nil, ?_, rfl, _, _, terminal, ⟨_, [], _, ?_, (List.append_nil _).symm, rfl, rfl⟩,
    hterminal, rfl⟩⟩
  · rw [List.map_singleton, hcodes]
    exact ⟨rfl, rfl⟩
  · rw [hcodes]
    exact ⟨rfl, rfl, hvalid, head, binding, digests, trailer, hframe, rfl, htrailer, rfl⟩

theorem packed_stream_canonical_small :
    ∃ stream totals,
      (∃ chunks, chunks.flatten = [1, 0, 2] ∧ codeChunks smallPrepared .host 1 stream =
        .ok (chunks, totals, Sha256.hexdigest stream)) ∧
      packStream smallPrepared .host [smallFrame [[1, 0, 2]]] =
        packStream smallPrepared .host [smallFrame [[1], [], [0, 2]]] ∧
      ∃ frames, frames.flatMap ServiceFrame.codes = [1, 0, 2] ∧
        packStream smallPrepared .host frames = .ok (stream, totals) := by
  obtain ⟨stream, totals, hpack⟩ := @packStream_small [[1], [0, 2]] rfl
  obtain ⟨chunks, hchunks, hread⟩ :=
    (packed_stream_canonical smallPrepared .host).1 _ _ _ hpack 1
  obtain ⟨frames, hframes, hback⟩ :=
    (packed_stream_canonical smallPrepared .host).2.2 _ _ _ _ _ hread
  exact ⟨stream, totals, ⟨chunks, hchunks, hread⟩,
    (packed_stream_canonical smallPrepared .host).2.1 _ _ rfl, frames, hframes.trans hchunks, hback⟩

end AttestedCompute.SmallQ
