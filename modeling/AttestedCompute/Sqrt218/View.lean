import AttestedCompute.Sqrt218.Words
import AttestedCompute.Lib.Region

/-!
# Views of a snapshot

`tg_sq218_view_open_v2` reads a fixed header of 160 bytes, and accepts it when the five
sections that it declares lie end to end from the header to the end of the snapshot. The
record accessors compute the offset of a record again from the header of the view.
-/

namespace AttestedCompute.Sqrt218

open Fallible (bind_ok pure_ok refuseIf refuseIf_ok Avoids avoids_ok avoids_error avoids_bind)

def headerBytes : UInt64 := 160
def primeBytes : UInt64 := 80
def factorRefBytes : UInt64 := 8
def factorPairBytes : UInt64 := 16
def eventBytes : UInt64 := 32
def powerRefBytes : UInt64 := 8

def formatVersion : UInt16 := 2
def logScale : UInt64 := 281474976710656
def reciprocalScale : UInt64 := 1073741824
def logSeedAt : UInt64 := 30

/-- `tg_sq218_magic_v2` -/
def magicV2 : Bytes := [0x53, 0x51, 0x32, 0x31, 0x38, 0x56, 0x32, 0x00]

/-- `tg_sq218_header_v2` -/
structure Header where
  bound : UInt64
  reusedPrimeBound : UInt64
  logSeedAt : UInt64
  logScale : UInt64
  reciprocalScale : UInt64
  primeCount : UInt64
  factorRefCount : UInt64
  factorPairCount : UInt64
  eventCount : UInt64
  powerRefCount : UInt64
  primesOffset : UInt64
  factorRefsOffset : UInt64
  factorPairsOffset : UInt64
  eventsOffset : UInt64
  powerRefsOffset : UInt64
  archiveBytes : UInt64
  deriving DecidableEq, Repr

variable {platform : Platform}

/-- `tg_sq218_view_v2` -/
structure View (platform : Platform) where
  snapshot : Snapshot platform
  header : Header

/-! ## Opening -/

/-- `tg_same_magic` from byte `i` on. -/
def sameMagicFrom (snapshot : Snapshot platform) : Nat → Bytes → Checked Bool
  | _, [] => pure true
  | i, expected :: rest => do
      let byte ← readByte snapshot i
      if byte ≠ expected then pure false else sameMagicFrom snapshot (i + 1) rest

/-- `tg_same_magic` -/
def sameMagic (snapshot : Snapshot platform) : Checked Bool := sameMagicFrom snapshot 0 magicV2

/-- The sixteen words of the header. -/
def readHeader (snapshot : Snapshot platform) : Checked Header := do
  let bound ← readBe64 snapshot 16
  let reusedPrimeBound ← readBe64 snapshot 24
  let logSeedAt ← readBe64 snapshot 32
  let logScale ← readBe64 snapshot 40
  let reciprocalScale ← readBe64 snapshot 48
  let primeCount ← readBe64 snapshot 56
  let factorRefCount ← readBe64 snapshot 64
  let factorPairCount ← readBe64 snapshot 72
  let eventCount ← readBe64 snapshot 80
  let powerRefCount ← readBe64 snapshot 88
  let primesOffset ← readBe64 snapshot 96
  let factorRefsOffset ← readBe64 snapshot 104
  let factorPairsOffset ← readBe64 snapshot 112
  let eventsOffset ← readBe64 snapshot 120
  let powerRefsOffset ← readBe64 snapshot 128
  let archiveBytes ← readBe64 snapshot 136
  pure { bound, reusedPrimeBound, logSeedAt, logScale, reciprocalScale, primeCount, factorRefCount,
         factorPairCount, eventCount, powerRefCount, primesOffset, factorRefsOffset,
         factorPairsOffset, eventsOffset, powerRefsOffset, archiveBytes }

/-- Magic, version, header width and flags. -/
def checkPreamble (snapshot : Snapshot platform) : Checked Unit := do
  let magic ← sameMagic snapshot
  refuse (magic = false) .badFormat
  let version ← readBe16 snapshot 8
  refuse (version ≠ formatVersion) .badFormat
  let width ← readBe16 snapshot 10
  refuse (width.toUInt64 ≠ headerBytes) .badFormat
  let flags ← readBe32 snapshot 12
  refuse (flags ≠ 0) .badFormat

/-- The two reserved words. -/
def checkReserved (snapshot : Snapshot platform) : Checked Unit := do
  let first ← readBe64 snapshot 144
  refuse (first ≠ 0) .badFormat
  let second ← readBe64 snapshot 152
  refuse (second ≠ 0) .badFormat

/-- The parameters and the place of the first section. -/
def checkParameters (header : Header) : Checked Unit :=
  refuse (header.bound < 2 ∨ header.reusedPrimeBound > header.bound
    ∨ header.logSeedAt ≠ logSeedAt ∨ header.logScale ≠ logScale
    ∨ header.reciprocalScale ≠ reciprocalScale ∨ header.primeCount = 0
    ∨ header.powerRefCount ≠ header.eventCount ∨ header.primesOffset ≠ headerBytes) .badFormat

/-- `tg_section_end` -/
def sectionEnd (start count width : UInt64) : Option UInt64 := do
  let bytes ← mulChecked count width
  addChecked start bytes

/-- The five sections, each at the end of the one before, the last at the end of the snapshot. -/
def checkSections (platform : Platform) (header : Header) (length : Nat) : Checked Unit := do
  let expected := header.primesOffset
  let expected ← orStatus (sectionEnd expected header.primeCount primeBytes) .badFormat
  refuse (header.factorRefsOffset ≠ expected) .badFormat
  let expected ← orStatus (sectionEnd expected header.factorRefCount factorRefBytes) .badFormat
  refuse (header.factorPairsOffset ≠ expected) .badFormat
  let expected ← orStatus (sectionEnd expected header.factorPairCount factorPairBytes) .badFormat
  refuse (header.eventsOffset ≠ expected) .badFormat
  let expected ← orStatus (sectionEnd expected header.eventCount eventBytes) .badFormat
  refuse (header.powerRefsOffset ≠ expected) .badFormat
  let expected ← orStatus (sectionEnd expected header.powerRefCount powerRefBytes) .badFormat
  refuse (header.archiveBytes ≠ expected) .badFormat
  refuse (expected.toNat > platform.sizeMax) .badFormat
  refuse (platform.toSize expected ≠ length) .badFormat

/-- `tg_sq218_view_open_v2`; a null pointer is `none`. -/
def viewOpen : Option (Snapshot platform) → Checked (View platform)
  | none => .error (.status .badArgument)
  | some snapshot => do
      refuse (snapshot.length < platform.toSize headerBytes) .badFormat
      checkPreamble snapshot
      let header ← readHeader snapshot
      checkReserved snapshot
      checkParameters header
      checkSections platform header snapshot.length
      pure { snapshot := snapshot, header := header }

/-! ## Accessors -/

/-- `tg_range_inside` -/
def rangeInside (view : View platform) (offset width : UInt64) : Bool :=
  match addChecked offset width with
  | none => false
  | some stop => stop.toNat ≤ view.snapshot.length

/-- `tg_record_offset` -/
def recordOffset (view : View platform) (first count width index : UInt64) : Checked UInt64 := do
  refuse (index ≥ count) .outOfRange
  let displacement ← orStatus (mulChecked index width) .outOfRange
  let offset ← orStatus (addChecked first displacement) .outOfRange
  refuse (rangeInside view offset width = false) .outOfRange
  pure offset

/-- An accessor: the offset of a record, then its fields from there. -/
def recordAt {α : Type} (first count : Header → UInt64) (width : UInt64)
    (decode : Snapshot platform → Nat → Checked α) (view : Option (View platform)) (index : UInt64) :
    Checked α :=
  match view with
  | none => .error (.status .badArgument)
  | some view => do
      let offset ← recordOffset view (first view.header) (count view.header) width index
      decode view.snapshot (platform.toSize offset)

/-- `tg_sq218_prime_v2` -/
structure Prime where
  prime : UInt64
  witness : UInt64
  factorRefIndex : UInt64
  factorRefCount : UInt32
  gapPairCount : UInt32
  gapPairIndex : UInt64
  powerRefIndex : UInt64
  powerRefCount : UInt32
  logLower : UInt64
  logUpper : UInt64
  deriving DecidableEq, Repr

/-- `tg_sq218_factor_pair_v2` -/
structure FactorPair where
  left : UInt64
  right : UInt64
  deriving DecidableEq, Repr

/-- `tg_sq218_event_v2` -/
structure Event where
  value : UInt64
  primeIndex : UInt64
  exponent : UInt32
  floorSqrt : UInt64
  deriving DecidableEq, Repr

def decodePrime (snapshot : Snapshot platform) (p : Nat) : Checked Prime := do
  let reserved ← readBe32 snapshot (p + 52)
  refuse (reserved ≠ 0) .badFormat
  let reservedTail ← readBe64 snapshot (p + 72)
  refuse (reservedTail ≠ 0) .badFormat
  let prime ← readBe64 snapshot p
  let witness ← readBe64 snapshot (p + 8)
  let factorRefIndex ← readBe64 snapshot (p + 16)
  let factorRefCount ← readBe32 snapshot (p + 24)
  let gapPairCount ← readBe32 snapshot (p + 28)
  let gapPairIndex ← readBe64 snapshot (p + 32)
  let powerRefIndex ← readBe64 snapshot (p + 40)
  let powerRefCount ← readBe32 snapshot (p + 48)
  let logLower ← readBe64 snapshot (p + 56)
  let logUpper ← readBe64 snapshot (p + 64)
  pure { prime, witness, factorRefIndex, factorRefCount, gapPairCount, gapPairIndex, powerRefIndex,
         powerRefCount, logLower, logUpper }

def decodeFactorPair (snapshot : Snapshot platform) (p : Nat) : Checked FactorPair := do
  let left ← readBe64 snapshot p
  let right ← readBe64 snapshot (p + 8)
  pure { left, right }

def decodeEvent (snapshot : Snapshot platform) (p : Nat) : Checked Event := do
  let reserved ← readBe32 snapshot (p + 20)
  refuse (reserved ≠ 0) .badFormat
  let value ← readBe64 snapshot p
  let primeIndex ← readBe64 snapshot (p + 8)
  let exponent ← readBe32 snapshot (p + 16)
  let floorSqrt ← readBe64 snapshot (p + 24)
  pure { value, primeIndex, exponent, floorSqrt }

/-- `tg_sq218_prime_at_v2` -/
def primeAt : Option (View platform) → UInt64 → Checked Prime :=
  recordAt Header.primesOffset Header.primeCount primeBytes decodePrime

/-- `tg_sq218_factor_ref_at_v2` -/
def factorRefAt : Option (View platform) → UInt64 → Checked UInt64 :=
  recordAt Header.factorRefsOffset Header.factorRefCount factorRefBytes readBe64

/-- `tg_sq218_factor_pair_at_v2` -/
def factorPairAt : Option (View platform) → UInt64 → Checked FactorPair :=
  recordAt Header.factorPairsOffset Header.factorPairCount factorPairBytes decodeFactorPair

/-- `tg_sq218_event_at_v2` -/
def eventAt : Option (View platform) → UInt64 → Checked Event :=
  recordAt Header.eventsOffset Header.eventCount eventBytes decodeEvent

/-- `tg_sq218_power_ref_at_v2` -/
def powerRefAt : Option (View platform) → UInt64 → Checked UInt64 :=
  recordAt Header.powerRefsOffset Header.powerRefCount powerRefBytes readBe64

end AttestedCompute.Sqrt218
