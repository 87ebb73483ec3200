import AttestedCompute.Sqrt218.View

/-!
# The layout of a view

A snapshot opens exactly when its header describes the canonical layout, with offsets and
sizes as natural numbers. An open view is all the accessors need: a record below its count
lies in its section, so its offset does not wrap and its fields are inside the snapshot.
-/

namespace AttestedCompute.Sqrt218

open Fallible (bind_ok pure_ok refuseIf_ok avoids_ok avoids_error avoids_bind)

variable {platform : Platform}

/-- The five sections a header declares. -/
def sections (bytes : Bytes) : List Region :=
  [⟨field bytes 96 8, field bytes 56 8 * 80⟩, ⟨field bytes 104 8, field bytes 64 8 * 8⟩,
    ⟨field bytes 112 8, field bytes 72 8 * 16⟩, ⟨field bytes 120 8, field bytes 80 8 * 32⟩,
    ⟨field bytes 128 8, field bytes 88 8 * 8⟩]

/-- The header describes sections laid end to end from byte 160 to the end. -/
structure CanonicalLayout (bytes : Bytes) (length : Nat) : Prop where
  header : 160 ≤ length
  magic : bytes.take 8 = magicV2
  version : field bytes 8 2 = 2
  headerWidth : field bytes 10 2 = 160
  flags : field bytes 12 4 = 0
  reserved : field bytes 144 8 = 0 ∧ field bytes 152 8 = 0
  bound : 2 ≤ field bytes 16 8
  reusedPrimeBound : field bytes 24 8 ≤ field bytes 16 8
  logSeedAt : field bytes 32 8 = 30
  logScale : field bytes 40 8 = 2 ^ 48
  reciprocalScale : field bytes 48 8 = 2 ^ 30
  primes : field bytes 56 8 ≠ 0
  powerRefs : field bytes 88 8 = field bytes 80 8
  layout : Region.Consecutive 160 (sections bytes) length
  archiveBytes : field bytes 136 8 = length

/-- The header at the start of a memory. -/
def headerAt (bytes : Bytes) : Header where
  bound := be64 bytes 16
  reusedPrimeBound := be64 bytes 24
  logSeedAt := be64 bytes 32
  logScale := be64 bytes 40
  reciprocalScale := be64 bytes 48
  primeCount := be64 bytes 56
  factorRefCount := be64 bytes 64
  factorPairCount := be64 bytes 72
  eventCount := be64 bytes 80
  powerRefCount := be64 bytes 88
  primesOffset := be64 bytes 96
  factorRefsOffset := be64 bytes 104
  factorPairsOffset := be64 bytes 112
  eventsOffset := be64 bytes 120
  powerRefsOffset := be64 bytes 128
  archiveBytes := be64 bytes 136

/-! ## Opening reads the header -/

theorem readHeader_eq {snapshot : Snapshot platform} (h : 160 ≤ snapshot.length) :
    readHeader snapshot = .ok (headerAt snapshot.bytes) := by
  unfold readHeader
  rw [readBe64_eq (by omega), readBe64_eq (by omega), readBe64_eq (by omega), readBe64_eq (by omega),
    readBe64_eq (by omega), readBe64_eq (by omega), readBe64_eq (by omega), readBe64_eq (by omega),
    readBe64_eq (by omega), readBe64_eq (by omega), readBe64_eq (by omega), readBe64_eq (by omega),
    readBe64_eq (by omega), readBe64_eq (by omega), readBe64_eq (by omega), readBe64_eq (by omega)]
  rfl

theorem sameMagicFrom_eq {snapshot : Snapshot platform} {i : Nat} {expected : Bytes}
    (h : i + expected.length ≤ snapshot.length) :
    sameMagicFrom snapshot i expected
      = .ok (decide ((snapshot.bytes.drop i).take expected.length = expected)) := by
  have hreadable := snapshot.readable
  induction expected generalizing i with
  | nil => simp [sameMagicFrom]
  | cons byte rest ih =>
      rw [List.length_cons] at h
      have hlt : i < snapshot.bytes.length := by omega
      have hbyte : snapshot.bytes.at0 i = snapshot.bytes[i] := List.getD_eq_getElem _ _ hlt
      unfold sameMagicFrom
      rw [readByte_eq (by omega)]
      show (if snapshot.bytes.at0 i ≠ byte then pure false
        else sameMagicFrom snapshot (i + 1) rest) = _
      rw [List.drop_eq_getElem_cons hlt, List.length_cons, List.take_succ_cons, ← hbyte]
      by_cases heq : snapshot.bytes.at0 i = byte
      · rw [if_neg (not_not.mpr heq), ih (by omega)]
        simp [heq]
      · rw [if_pos heq]
        simp [heq]

theorem sameMagic_eq {snapshot : Snapshot platform} (h : 160 ≤ snapshot.length) :
    sameMagic snapshot = .ok (decide (snapshot.bytes.take 8 = magicV2)) :=
  sameMagicFrom_eq (show 0 + magicV2.length ≤ snapshot.length by
    have : magicV2.length = 8 := rfl
    omega)

theorem checkPreamble_ok {snapshot : Snapshot platform} (h : 160 ≤ snapshot.length) :
    checkPreamble snapshot = .ok () ↔ snapshot.bytes.take 8 = magicV2
      ∧ field snapshot.bytes 8 2 = 2 ∧ field snapshot.bytes 10 2 = 160
      ∧ field snapshot.bytes 12 4 = 0 := by
  have hreadable := snapshot.readable
  have hversion := toNat_be16 (show 8 + 2 ≤ snapshot.bytes.length by omega)
  have hwidth := toNat_be16 (show 10 + 2 ≤ snapshot.bytes.length by omega)
  have hflags := toNat_be32 (show 12 + 4 ≤ snapshot.bytes.length by omega)
  unfold checkPreamble
  rw [sameMagic_eq h, readBe16_eq (by omega), readBe16_eq (by omega), readBe32_eq (by omega)]
  simp only [bind_ok, refuseIf_ok, Except.ok.injEq, exists_eq_left', exists_const, not_not,
    decide_eq_false_iff_not]
  simp only [← UInt16.toNat_inj, ← UInt32.toNat_inj, ← UInt64.toNat_inj, UInt16.toNat_toUInt64,
    hversion, hwidth, hflags]
  rfl

theorem checkReserved_ok {snapshot : Snapshot platform} (h : 160 ≤ snapshot.length) :
    checkReserved snapshot = .ok () ↔ field snapshot.bytes 144 8 = 0
      ∧ field snapshot.bytes 152 8 = 0 := by
  have hreadable := snapshot.readable
  have hfirst := toNat_be64 (show 144 + 8 ≤ snapshot.bytes.length by omega)
  have hsecond := toNat_be64 (show 152 + 8 ≤ snapshot.bytes.length by omega)
  unfold checkReserved
  rw [readBe64_eq (by omega), readBe64_eq (by omega)]
  simp only [bind_ok, refuseIf_ok, Except.ok.injEq, exists_eq_left', exists_const, not_not]
  simp only [← UInt64.toNat_inj, hfirst, hsecond]
  rfl

theorem checkParameters_ok {header : Header} :
    checkParameters header = .ok () ↔ 2 ≤ header.bound.toNat
      ∧ header.reusedPrimeBound.toNat ≤ header.bound.toNat ∧ header.logSeedAt.toNat = 30
      ∧ header.logScale.toNat = 2 ^ 48 ∧ header.reciprocalScale.toNat = 2 ^ 30
      ∧ header.primeCount.toNat ≠ 0 ∧ header.powerRefCount.toNat = header.eventCount.toNat
      ∧ header.primesOffset.toNat = 160 := by
  unfold checkParameters
  simp only [refuseIf_ok, not_or, not_not, gt_iff_lt, UInt64.lt_iff_toNat_lt, not_lt,
    ← UInt64.toNat_inj]
  rfl

/-! ## The sections in exact arithmetic -/

theorem sectionEnd_eq_some {start count width stop : UInt64} :
    sectionEnd start count width = some stop
      ↔ start.toNat + count.toNat * width.toNat = stop.toNat := by
  unfold sectionEnd
  rw [Option.bind_eq_bind, Option.bind_eq_some_iff]
  refine ⟨fun h => ?_, fun h => ?_⟩
  · obtain ⟨bytes, hbytes, hstop⟩ := h
    rw [mulChecked_eq_some.mp hbytes]
    exact addChecked_eq_some.mp hstop
  · have hlt := stop.toNat_lt
    have hbytes : (UInt64.ofNat (count.toNat * width.toNat)).toNat = count.toNat * width.toNat :=
      UInt64.toNat_ofNat_of_lt' (by show _ < 2 ^ 64; omega)
    exact ⟨_, mulChecked_eq_some.mpr hbytes.symm, addChecked_eq_some.mpr (by rw [hbytes]; exact h)⟩

/-- The sections of a header, as regions. -/
def headerSections (header : Header) : List Region :=
  [⟨header.primesOffset.toNat, header.primeCount.toNat * 80⟩,
    ⟨header.factorRefsOffset.toNat, header.factorRefCount.toNat * 8⟩,
    ⟨header.factorPairsOffset.toNat, header.factorPairCount.toNat * 16⟩,
    ⟨header.eventsOffset.toNat, header.eventCount.toNat * 32⟩,
    ⟨header.powerRefsOffset.toNat, header.powerRefCount.toNat * 8⟩]

/-- **The section check is the layout in natural arithmetic.** -/
theorem checkSections_ok {header : Header} {length : Nat} (hlength : length ≤ platform.sizeMax) :
    checkSections platform header length = .ok ()
      ↔ Region.Consecutive header.primesOffset.toNat (headerSections header) length
        ∧ header.archiveBytes.toNat = length := by
  have hprime : primeBytes.toNat = 80 := rfl
  have hfactor : factorRefBytes.toNat = 8 := rfl
  have hpair : factorPairBytes.toNat = 16 := rfl
  have hevent : eventBytes.toNat = 32 := rfl
  have hpower : powerRefBytes.toNat = 8 := rfl
  unfold checkSections
  simp only [bind_ok, orStatus_ok, sectionEnd_eq_some, refuseIf_ok, not_not, hprime, hfactor, hpair,
    hevent, hpower, gt_iff_lt, not_lt]
  unfold headerSections
  simp only [Region.Consecutive, Region.stop, true_and]
  refine ⟨fun h => ?_, fun h => ?_⟩
  · obtain ⟨e1, h1, _, rfl, e2, h2, _, rfl, e3, h3, _, rfl, e4, h4, _, rfl, e5, h5, _, rfl, _, hsize,
      hlast⟩ := h
    unfold Platform.toSize at hlast
    rw [Nat.mod_eq_of_lt (by omega)] at hlast
    exact ⟨⟨h1.symm, h2.symm, h3.symm, h4.symm, by omega⟩, hlast⟩
  · obtain ⟨⟨h1, h2, h3, h4, h5⟩, harchive⟩ := h
    refine ⟨_, h1.symm, (), rfl, _, h2.symm, (), rfl, _, h3.symm, (), rfl, _, h4.symm, (), rfl, _, ?_,
      (), rfl, (), ?_, ?_⟩
    · omega
    · omega
    · unfold Platform.toSize
      rw [Nat.mod_eq_of_lt (by omega), harchive]

/-- The words of the header are the fields of the memory. -/
theorem headerSections_at {bytes : Bytes} (h : 160 ≤ bytes.length) :
    headerSections (headerAt bytes) = sections bytes := by
  unfold headerSections headerAt sections
  dsimp only
  rw [toNat_be64 (by omega), toNat_be64 (by omega), toNat_be64 (by omega), toNat_be64 (by omega),
    toNat_be64 (by omega), toNat_be64 (by omega), toNat_be64 (by omega), toNat_be64 (by omega),
    toNat_be64 (by omega), toNat_be64 (by omega)]

theorem toSize_headerBytes : platform.toSize headerBytes = 160 := by
  have hminimum := platform.minimum
  have hvalue : headerBytes.toNat = 160 := rfl
  rw [Platform.toSize, hvalue, Nat.mod_eq_of_lt (by omega)]

/-- **Opening accepts exactly the canonical layout.** -/
theorem viewOpen_ok_iff {snapshot : Snapshot platform} {view : View platform} :
    viewOpen (some snapshot) = .ok view ↔ CanonicalLayout snapshot.bytes snapshot.length
      ∧ view = { snapshot := snapshot, header := headerAt snapshot.bytes } := by
  unfold viewOpen
  simp only [bind_ok, refuseIf_ok, toSize_headerBytes, not_lt, pure_ok, exists_const]
  by_cases hheader : 160 ≤ snapshot.length
  · have hbytes := hheader.trans snapshot.readable
    have hword : ∀ i, i + 8 ≤ 160 → (be64 snapshot.bytes i).toNat = field snapshot.bytes i 8 :=
      fun i hi => toNat_be64 (hi.trans hbytes)
    have hparameters := @checkParameters_ok (headerAt snapshot.bytes)
    have hsections := @checkSections_ok platform (headerAt snapshot.bytes) snapshot.length
      snapshot.size
    unfold headerAt at hparameters
    dsimp only at hparameters
    rw [hword 16 (by decide), hword 24 (by decide), hword 32 (by decide), hword 40 (by decide),
      hword 48 (by decide), hword 56 (by decide), hword 88 (by decide), hword 80 (by decide),
      hword 96 (by decide)] at hparameters
    rw [headerSections_at hbytes, show (headerAt snapshot.bytes).primesOffset.toNat
      = field snapshot.bytes 96 8 from hword 96 (by decide),
      show (headerAt snapshot.bytes).archiveBytes.toNat = field snapshot.bytes 136 8
      from hword 136 (by decide)] at hsections
    refine ⟨fun h => ?_, fun h => ?_⟩
    · obtain ⟨_, _, hpreamble, header, hread, _, hreserved, _, hparam, _, hsect, rfl⟩ := h
      obtain rfl := Except.ok.inj ((readHeader_eq hheader).symm.trans hread)
      obtain ⟨hmagic, hversion, hwidth, hflags⟩ := (checkPreamble_ok hheader).mp hpreamble
      obtain ⟨h1, h2, h3, h4, h5, h6, h7, h8⟩ := hparameters.mp hparam
      obtain ⟨hlayout, harchive⟩ := hsections.mp hsect
      rw [h8] at hlayout
      exact ⟨⟨hheader, hmagic, hversion, hwidth, hflags, (checkReserved_ok hheader).mp hreserved, h1,
        h2, h3, h4, h5, h6, h7, hlayout, harchive⟩, rfl⟩
    · obtain ⟨hcanonical, rfl⟩ := h
      have hfirst : field snapshot.bytes 96 8 = 160 := hcanonical.layout.1
      refine ⟨hheader, (), (checkPreamble_ok hheader).mpr ⟨hcanonical.magic, hcanonical.version,
        hcanonical.headerWidth, hcanonical.flags⟩, _, readHeader_eq hheader, (),
        (checkReserved_ok hheader).mpr hcanonical.reserved, (), hparameters.mpr ⟨hcanonical.bound,
        hcanonical.reusedPrimeBound, hcanonical.logSeedAt, hcanonical.logScale,
        hcanonical.reciprocalScale, hcanonical.primes, hcanonical.powerRefs, hfirst⟩, (),
        hsections.mpr ⟨?_, hcanonical.archiveBytes⟩, rfl⟩
      rw [hfirst]
      exact hcanonical.layout
  · exact ⟨fun h => absurd h.1 hheader, fun h => absurd h.1.header hheader⟩

theorem safe_of_ok {α : Type} {x : Checked α} {a : α} (h : x = .ok a) : Safe x := by
  rw [h]
  exact avoids_ok _ a

/-- Opening reads nothing past the length, whatever the bytes are. -/
theorem safe_viewOpen (snapshot : Snapshot platform) : Safe (viewOpen (some snapshot)) := by
  unfold viewOpen
  refine avoids_bind (safe_refuse _ _) fun _ hlength => ?_
  rw [refuseIf_ok, toSize_headerBytes, not_lt] at hlength
  have hpreamble : Safe (checkPreamble snapshot) := by
    unfold checkPreamble
    refine avoids_bind (safe_of_ok (sameMagic_eq hlength)) fun _ _ =>
      avoids_bind (safe_refuse _ _) fun _ _ => ?_
    refine avoids_bind (safe_of_ok (readBe16_eq (by omega))) fun _ _ =>
      avoids_bind (safe_refuse _ _) fun _ _ => ?_
    refine avoids_bind (safe_of_ok (readBe16_eq (by omega))) fun _ _ =>
      avoids_bind (safe_refuse _ _) fun _ _ => ?_
    exact avoids_bind (safe_of_ok (readBe32_eq (by omega))) fun _ _ => safe_refuse _ _
  have hreserved : Safe (checkReserved snapshot) := by
    unfold checkReserved
    refine avoids_bind (safe_of_ok (readBe64_eq (by omega))) fun _ _ =>
      avoids_bind (safe_refuse _ _) fun _ _ => ?_
    exact avoids_bind (safe_of_ok (readBe64_eq (by omega))) fun _ _ => safe_refuse _ _
  have hsections : ∀ header, Safe (checkSections platform header snapshot.length) := by
    intro header
    unfold checkSections
    refine avoids_bind (safe_orStatus _ _) fun _ _ => avoids_bind (safe_refuse _ _) fun _ _ => ?_
    refine avoids_bind (safe_orStatus _ _) fun _ _ => avoids_bind (safe_refuse _ _) fun _ _ => ?_
    refine avoids_bind (safe_orStatus _ _) fun _ _ => avoids_bind (safe_refuse _ _) fun _ _ => ?_
    refine avoids_bind (safe_orStatus _ _) fun _ _ => avoids_bind (safe_refuse _ _) fun _ _ => ?_
    refine avoids_bind (safe_orStatus _ _) fun _ _ => avoids_bind (safe_refuse _ _) fun _ _ => ?_
    exact avoids_bind (safe_refuse _ _) fun _ _ => safe_refuse _ _
  refine avoids_bind hpreamble fun _ _ => avoids_bind (safe_of_ok (readHeader_eq hlength)) fun _ _ => ?_
  refine avoids_bind hreserved fun _ _ => avoids_bind (safe_refuse _ _) fun _ _ => ?_
  exact avoids_bind (hsections _) fun _ _ => avoids_ok _ _

/-! ## Accessors stay in their section -/

/-- Records of one section: every offset is exact and inside, every access safe. -/
structure RecordsInside {α : Type} (view : View platform) (first count : Header → UInt64)
    (width : UInt64) (accessor : Option (View platform) → UInt64 → Checked α) : Prop where
  /-- The products and sums of the offset do not wrap. -/
  noWrap : ∀ index, index < count view.header →
    (index * width).toNat = index.toNat * width.toNat
      ∧ (first view.header + index * width).toNat
        = (first view.header).toNat + index.toNat * width.toNat
      ∧ (first view.header + index * width + width).toNat
        = (first view.header).toNat + index.toNat * width.toNat + width.toNat
  /-- The computed offset is the exact one, and the record ends inside the snapshot. -/
  offset : ∀ index, index < count view.header →
    recordOffset view (first view.header) (count view.header) width index
        = .ok (first view.header + index * width)
      ∧ (first view.header).toNat + index.toNat * width.toNat + width.toNat ≤ view.snapshot.length
  /-- No byte outside the snapshot is read. -/
  safe : ∀ index, index < count view.header → Safe (accessor (some view) index)
  /-- Past the count nothing is read. -/
  refused : ∀ index, count view.header ≤ index →
    accessor (some view) index = .error (.status .outOfRange)

theorem record_stop_le {count width index : Nat} (h : index < count) :
    index * width + width ≤ count * width := by
  have hle := Nat.mul_le_mul_right width (Nat.succ_le_of_lt h)
  rwa [Nat.succ_mul] at hle

/-- **The accessors of a section inside the snapshot.** -/
theorem recordsInside_of_section {α : Type} {view : View platform} {first count : Header → UInt64}
    {width : UInt64} {decode : Snapshot platform → Nat → Checked α}
    (hsection : (first view.header).toNat + (count view.header).toNat * width.toNat
      ≤ view.snapshot.length)
    (hdecode : ∀ p, p + width.toNat ≤ view.snapshot.length → Safe (decode view.snapshot p)) :
    RecordsInside view first count width (recordAt first count width decode) := by
  have hsize := view.snapshot.size
  have hword := platform.word
  have hstop : ∀ index, index < count view.header →
      (first view.header).toNat + index.toNat * width.toNat + width.toNat
        ≤ view.snapshot.length := by
    intro index h
    have hle := @record_stop_le _ width.toNat _ (UInt64.lt_iff_toNat_lt.mp h)
    omega
  have hproduct : ∀ index, index < count view.header →
      (index * width).toNat = index.toNat * width.toNat := by
    intro index h
    have hle := hstop index h
    rw [UInt64.toNat_mul, Nat.mod_eq_of_lt (by omega)]
  have hoffset : ∀ index, index < count view.header → (first view.header + index * width).toNat
      = (first view.header).toNat + index.toNat * width.toNat := by
    intro index h
    have hle := hstop index h
    rw [UInt64.toNat_add, hproduct index h, Nat.mod_eq_of_lt (by omega)]
  have hrecordEnd : ∀ index, index < count view.header →
      (first view.header + index * width + width).toNat
        = (first view.header).toNat + index.toNat * width.toNat + width.toNat := by
    intro index h
    have hle := hstop index h
    rw [UInt64.toNat_add, hoffset index h, Nat.mod_eq_of_lt (by omega)]
  have hrecord : ∀ index, index < count view.header →
      recordOffset view (first view.header) (count view.header) width index
        = .ok (first view.header + index * width) := by
    intro index h
    have hinside : rangeInside view (first view.header + index * width) width = true := by
      have hsome : addChecked (first view.header + index * width) width
          = some (first view.header + index * width + width) := by
        rw [addChecked_eq_some, hoffset index h, hrecordEnd index h]
      unfold rangeInside
      rw [hsome]
      dsimp only
      rw [hrecordEnd index h, decide_eq_true_eq]
      exact hstop index h
    unfold recordOffset
    refine bind_ok.mpr ⟨(), refuseIf_ok.mpr (UInt64.not_le.mpr h), ?_⟩
    refine bind_ok.mpr ⟨index * width, orStatus_ok.mpr ?_, ?_⟩
    · exact mulChecked_eq_some.mpr (hproduct index h).symm
    refine bind_ok.mpr ⟨_, orStatus_ok.mpr ?_, bind_ok.mpr ⟨(), refuseIf_ok.mpr ?_, rfl⟩⟩
    · rw [addChecked_eq_some, hproduct index h, hoffset index h]
    · rw [hinside]
      simp
  refine ⟨fun index h => ⟨hproduct index h, hoffset index h, hrecordEnd index h⟩,
    fun index h => ⟨hrecord index h, hstop index h⟩, fun index h => ?_, fun index h => ?_⟩
  · unfold recordAt
    refine avoids_bind (safe_of_ok (hrecord index h)) fun offset hok => ?_
    obtain rfl := Except.ok.inj ((hrecord index h).symm.trans hok)
    have hle := hstop index h
    refine hdecode _ ?_
    rw [Platform.toSize, Nat.mod_eq_of_lt (by rw [hoffset index h]; omega), hoffset index h]
    exact hle
  · have hrefused : refuse (index ≥ count view.header) .outOfRange
        = .error (.status .outOfRange) := if_pos h
    unfold recordAt recordOffset
    dsimp only
    rw [hrefused]
    rfl

theorem safe_readBe64 {snapshot : Snapshot platform} {p : Nat} (h : p + 8 ≤ snapshot.length) :
    Safe (readBe64 snapshot p) := safe_of_ok (readBe64_eq h)

theorem safe_readBe32 {snapshot : Snapshot platform} {p : Nat} (h : p + 4 ≤ snapshot.length) :
    Safe (readBe32 snapshot p) := safe_of_ok (readBe32_eq h)

theorem safe_decodePrime {snapshot : Snapshot platform} {p : Nat} (h : p + 80 ≤ snapshot.length) :
    Safe (decodePrime snapshot p) := by
  unfold decodePrime
  refine avoids_bind (safe_readBe32 (by omega)) fun _ _ => avoids_bind (safe_refuse _ _) fun _ _ => ?_
  refine avoids_bind (safe_readBe64 (by omega)) fun _ _ => avoids_bind (safe_refuse _ _) fun _ _ => ?_
  refine avoids_bind (safe_readBe64 (by omega)) fun _ _ =>
    avoids_bind (safe_readBe64 (by omega)) fun _ _ => ?_
  refine avoids_bind (safe_readBe64 (by omega)) fun _ _ =>
    avoids_bind (safe_readBe32 (by omega)) fun _ _ => ?_
  refine avoids_bind (safe_readBe32 (by omega)) fun _ _ =>
    avoids_bind (safe_readBe64 (by omega)) fun _ _ => ?_
  refine avoids_bind (safe_readBe64 (by omega)) fun _ _ =>
    avoids_bind (safe_readBe32 (by omega)) fun _ _ => ?_
  exact avoids_bind (safe_readBe64 (by omega)) fun _ _ =>
    avoids_bind (safe_readBe64 (by omega)) fun _ _ => avoids_ok _ _

theorem safe_decodeFactorPair {snapshot : Snapshot platform} {p : Nat}
    (h : p + 16 ≤ snapshot.length) : Safe (decodeFactorPair snapshot p) := by
  unfold decodeFactorPair
  exact avoids_bind (safe_readBe64 (by omega)) fun _ _ =>
    avoids_bind (safe_readBe64 (by omega)) fun _ _ => avoids_ok _ _

theorem safe_decodeEvent {snapshot : Snapshot platform} {p : Nat} (h : p + 32 ≤ snapshot.length) :
    Safe (decodeEvent snapshot p) := by
  unfold decodeEvent
  refine avoids_bind (safe_readBe32 (by omega)) fun _ _ => avoids_bind (safe_refuse _ _) fun _ _ => ?_
  refine avoids_bind (safe_readBe64 (by omega)) fun _ _ =>
    avoids_bind (safe_readBe64 (by omega)) fun _ _ => ?_
  exact avoids_bind (safe_readBe32 (by omega)) fun _ _ =>
    avoids_bind (safe_readBe64 (by omega)) fun _ _ => avoids_ok _ _

/-- The five accessors of a view stay inside. -/
structure AccessorsInside (view : View platform) : Prop where
  primes : RecordsInside view Header.primesOffset Header.primeCount primeBytes primeAt
  factorRefs :
    RecordsInside view Header.factorRefsOffset Header.factorRefCount factorRefBytes factorRefAt
  factorPairs :
    RecordsInside view Header.factorPairsOffset Header.factorPairCount factorPairBytes factorPairAt
  events : RecordsInside view Header.eventsOffset Header.eventCount eventBytes eventAt
  powerRefs : RecordsInside view Header.powerRefsOffset Header.powerRefCount powerRefBytes powerRefAt

theorem accessorsInside_of_canonical {snapshot : Snapshot platform}
    (h : CanonicalLayout snapshot.bytes snapshot.length) :
    AccessorsInside { snapshot := snapshot, header := headerAt snapshot.bytes } := by
  have hbytes := h.header.trans snapshot.readable
  have hinside := h.layout.inside
  rw [← headerSections_at hbytes] at hinside
  have hsection : ∀ first count width : Nat,
      (⟨first, count * width⟩ : Region) ∈ headerSections (headerAt snapshot.bytes) →
      first + count * width ≤ snapshot.length := fun _ _ _ hmem => (hinside _ hmem).2
  constructor
  case primes =>
    exact recordsInside_of_section (hsection _ _ 80 (by simp [headerSections]))
      fun p hp => safe_decodePrime hp
  case factorRefs =>
    exact recordsInside_of_section (hsection _ _ 8 (by simp [headerSections]))
      fun p hp => safe_readBe64 hp
  case factorPairs =>
    exact recordsInside_of_section (hsection _ _ 16 (by simp [headerSections]))
      fun p hp => safe_decodeFactorPair hp
  case events =>
    exact recordsInside_of_section (hsection _ _ 32 (by simp [headerSections]))
      fun p hp => safe_decodeEvent hp
  case powerRefs =>
    exact recordsInside_of_section (hsection _ _ 8 (by simp [headerSections]))
      fun p hp => safe_readBe64 hp

/--
**Memory layout.** Opening a snapshot reads only the snapshot, and succeeds exactly when the
header describes the canonical layout in natural arithmetic up to the given length; every
accessor of a view that was opened, below the count of its section, computes an exact offset
and reads only the snapshot.
-/
theorem view_layout_sound (snapshot : Snapshot platform) :
    Safe (viewOpen (some snapshot))
    ∧ ((∃ view, viewOpen (some snapshot) = .ok view)
      ↔ CanonicalLayout snapshot.bytes snapshot.length)
    ∧ ∀ view, viewOpen (some snapshot) = .ok view →
      view.snapshot = snapshot ∧ AccessorsInside view := by
  refine ⟨safe_viewOpen snapshot, ⟨fun h => ?_, fun h => ⟨_, viewOpen_ok_iff.mpr ⟨h, rfl⟩⟩⟩,
    fun view h => ?_⟩
  · obtain ⟨view, hview⟩ := h
    exact (viewOpen_ok_iff.mp hview).1
  · obtain ⟨hcanonical, rfl⟩ := viewOpen_ok_iff.mp h
    exact ⟨rfl, accessorsInside_of_canonical hcanonical⟩

/-! ## The least snapshot -/

/-- A header for one prime record and nothing else, and the record. -/
def leastBytes : Bytes :=
  magicV2 ++ [0, 2, 0, 160, 0, 0, 0, 0] ++ Bytes.ofNatBE 8 2 ++ Bytes.ofNatBE 8 2
    ++ Bytes.ofNatBE 8 30 ++ Bytes.ofNatBE 8 (2 ^ 48) ++ Bytes.ofNatBE 8 (2 ^ 30)
    ++ Bytes.ofNatBE 8 1 ++ List.replicate 32 0 ++ Bytes.ofNatBE 8 160 ++ Bytes.ofNatBE 8 240
    ++ Bytes.ofNatBE 8 240 ++ Bytes.ofNatBE 8 240 ++ Bytes.ofNatBE 8 240 ++ Bytes.ofNatBE 8 240
    ++ List.replicate 16 0 ++ List.replicate 80 0

/-- 64-bit `size_t`. -/
def lp64 : Platform where
  sizeMax := 2 ^ 64 - 1
  minimum := by decide
  word := by decide

def leastSnapshot : Snapshot lp64 where
  bytes := leastBytes
  length := 240
  readable := by decide +kernel
  size := by decide

theorem canonicalLayout_least : CanonicalLayout leastBytes 240 where
  header := by decide
  magic := by decide +kernel
  version := by decide +kernel
  headerWidth := by decide +kernel
  flags := by decide +kernel
  reserved := by decide +kernel
  bound := by decide +kernel
  reusedPrimeBound := by decide +kernel
  logSeedAt := by decide +kernel
  logScale := by decide +kernel
  reciprocalScale := by decide +kernel
  primes := by decide +kernel
  powerRefs := by decide +kernel
  layout := by
    unfold sections
    simp only [Region.Consecutive, Region.stop]
    decide +kernel
  archiveBytes := by decide +kernel

theorem view_layout_sound_least :
    ∃ view, viewOpen (some leastSnapshot) = .ok view ∧ AccessorsInside view := by
  obtain ⟨-, hopen, haccess⟩ := view_layout_sound leastSnapshot
  obtain ⟨view, hview⟩ := hopen.mpr canonicalLayout_least
  exact ⟨view, hview, (haccess view hview).2⟩

end AttestedCompute.Sqrt218
