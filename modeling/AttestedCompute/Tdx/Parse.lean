import AttestedCompute.Lib.ByteString
import AttestedCompute.Lib.Fallible
import AttestedCompute.Lib.Region

/-!
# Parsing a TDX v4 quote by slices

`parse_quote` of `verify_tdx_quote_chain.py` walks a quote far enough to check its
signature chain: a 48-byte header, a 584-byte report body, and two nested
length-prefixed areas. Every step is one bounds-checked slice, so a successful
parse is determined by four lengths (`Layout`), and `parseQuote_ok` says exactly
which byte strings parse and what every field then is.
-/

namespace AttestedCompute.Tdx

open Fallible

/-- The quote is not a well-formed v4 TDX quote. -/
inductive ChainError
  | truncated (what : String) (start stop available : Nat)
  | bodyNotConsumed
  | certificationType (found : Nat)
  deriving DecidableEq, Repr

def ChainError.message : ChainError → String
  | .truncated what start stop available =>
      what ++ ": quote is truncated (need bytes [" ++ toString start ++ ", " ++ toString stop
        ++ "), have " ++ toString available ++ ")"
  | .bodyNotConsumed => "TD report body did not consume 584 bytes"
  | .certificationType found =>
      "certification data type is " ++ toString found
        ++ ", expected 6 (QE report certification data)"

def HEADER_SIZE : Nat := 48
def TD_REPORT_SIZE : Nat := 584
def SGX_REPORT_SIZE : Nat := 384

/-- The fields of the 48-byte header. -/
structure Header where
  header : Bytes
  version : Nat
  attKeyType : Nat
  teeType : Nat
  qeVendorId : String
  deriving DecidableEq, Repr

/-- The fields of the 584-byte report body, measurements in hexadecimal. -/
structure TdReport where
  tdReport : Bytes
  teeTcbSvn : String
  mrSeam : String
  mrSignerSeam : String
  seamAttributes : String
  tdAttributes : String
  xfam : String
  mrTd : String
  mrConfigId : String
  mrOwner : String
  mrOwnerConfig : String
  rtmrs : List String
  reportData : Bytes
  deriving DecidableEq, Repr

/-- The fields of the certification data. -/
structure Certification where
  qeReport : Bytes
  qeReportSignature : Bytes
  qeAuthData : Bytes
  pckCertKeyType : Nat
  pckChainPem : Bytes
  qeReportData : Bytes
  qeMrEnclave : String
  qeMrSigner : String
  deriving DecidableEq, Repr

/-- The fields of the signature data. -/
structure SignatureArea where
  signatureData : Bytes
  ecdsaSignature : Bytes
  attestPubKey : Bytes
  certKeyType : Nat
  certification : Certification
  deriving DecidableEq, Repr

/-- The parts of a v4 TDX quote the gate needs. -/
structure Quote where
  raw : Bytes
  header : Header
  body : TdReport
  signature : SignatureArea
  deriving DecidableEq, Repr

/-! ## The parser -/

/-- A bounds-checked slice. The offsets and lengths of the callers are sums of constants
and unsigned lengths, so the source's two tests for negative arguments never fire. -/
def sliceAt (buf : Bytes) (start length : Nat) (what : String) : Except ChainError Bytes :=
  if start + length > buf.length then
    .error (.truncated what start (start + length) buf.length)
  else .ok ((Region.mk start length).slice buf)

def parseHeader (raw : Bytes) : Except ChainError Header := do
  let header ← sliceAt raw 0 HEADER_SIZE "header"
  pure { header := header
         version := Bytes.leValue ((Region.mk 0 2).slice header)
         attKeyType := Bytes.leValue ((Region.mk 2 2).slice header)
         teeType := Bytes.leValue ((Region.mk 4 4).slice header)
         qeVendorId := Bytes.hex ((Region.mk 12 16).slice header) }

/-- The next `n` bytes of the body, and the offset past them. -/
def take (body : Bytes) (o n : Nat) (what : String) : Except ChainError (Bytes × Nat) := do
  let v ← sliceAt body o n what
  pure (v, o + n)

def parseTdReport (raw : Bytes) : Except ChainError TdReport := do
  let body ← sliceAt raw HEADER_SIZE TD_REPORT_SIZE "TD report body"
  let (teeTcbSvn, o) ← take body 0 16 "tee_tcb_svn"
  let (mrSeam, o) ← take body o 48 "mrseam"
  let (mrSignerSeam, o) ← take body o 48 "mrsignerseam"
  let (seamAttributes, o) ← take body o 8 "seamattributes"
  let (tdAttributes, o) ← take body o 8 "tdattributes"
  let (xfam, o) ← take body o 8 "xfam"
  let (mrTd, o) ← take body o 48 "mrtd"
  let (mrConfigId, o) ← take body o 48 "mrconfigid"
  let (mrOwner, o) ← take body o 48 "mrowner"
  let (mrOwnerConfig, o) ← take body o 48 "mrownerconfig"
  let (rtmr0, o) ← take body o 48 "rtmr0"
  let (rtmr1, o) ← take body o 48 "rtmr1"
  let (rtmr2, o) ← take body o 48 "rtmr2"
  let (rtmr3, o) ← take body o 48 "rtmr3"
  let (reportData, o) ← take body o 64 "reportdata"
  refuseIf (o ≠ TD_REPORT_SIZE) ChainError.bodyNotConsumed
  pure { tdReport := body, teeTcbSvn := teeTcbSvn.hex, mrSeam := mrSeam.hex
         mrSignerSeam := mrSignerSeam.hex, seamAttributes := seamAttributes.hex
         tdAttributes := tdAttributes.hex, xfam := xfam.hex, mrTd := mrTd.hex
         mrConfigId := mrConfigId.hex, mrOwner := mrOwner.hex
         mrOwnerConfig := mrOwnerConfig.hex
         rtmrs := [rtmr0.hex, rtmr1.hex, rtmr2.hex, rtmr3.hex], reportData := reportData }

def parseCertification (cert : Bytes) : Except ChainError Certification := do
  let c := 0
  let qeReport ← sliceAt cert c SGX_REPORT_SIZE "QE report"
  let c := c + SGX_REPORT_SIZE
  let qeReportSignature ← sliceAt cert c 64 "QE report signature"
  let c := c + 64
  let authSize ← Bytes.leValue <$> sliceAt cert c 2 "QE auth data size"
  let c := c + 2
  let qeAuthData ← sliceAt cert c authSize "QE auth data"
  let c := c + authSize
  let pckCertKeyType ← Bytes.leValue <$> sliceAt cert c 2 "PCK certification data type"
  let c := c + 2
  let pckSize ← Bytes.leValue <$> sliceAt cert c 4 "PCK certification data size"
  let c := c + 4
  let pckChainPem ← sliceAt cert c pckSize "PCK certificate chain"
  pure { qeReport := qeReport, qeReportSignature := qeReportSignature, qeAuthData := qeAuthData
         pckCertKeyType := pckCertKeyType, pckChainPem := pckChainPem
         -- SGX report body: report_data is the last 64 bytes of the 384-byte body
         qeReportData := (Region.mk 320 64).slice qeReport
         qeMrEnclave := Bytes.hex ((Region.mk 64 32).slice qeReport)
         qeMrSigner := Bytes.hex ((Region.mk 128 32).slice qeReport) }

def parseSignature (raw : Bytes) : Except ChainError SignatureArea := do
  let p := HEADER_SIZE + TD_REPORT_SIZE
  let sigLen ← Bytes.leValue <$> sliceAt raw p 4 "signature length"
  let p := p + 4
  let sig ← sliceAt raw p sigLen "signature data"
  let s := 0
  let ecdsaSignature ← sliceAt sig s 64 "quote signature"
  let s := s + 64
  let attestPubKey ← sliceAt sig s 64 "attestation public key"
  let s := s + 64
  let certKeyType ← Bytes.leValue <$> sliceAt sig s 2 "certification data type"
  let s := s + 2
  let certSize ← Bytes.leValue <$> sliceAt sig s 4 "certification data size"
  let s := s + 4
  let cert ← sliceAt sig s certSize "certification data"
  refuseIf (certKeyType ≠ 6) (ChainError.certificationType certKeyType)
  let certification ← parseCertification cert
  pure { signatureData := sig, ecdsaSignature := ecdsaSignature, attestPubKey := attestPubKey
         certKeyType := certKeyType, certification := certification }

def parseQuote (raw : Bytes) : Except ChainError Quote := do
  let header ← parseHeader raw
  let body ← parseTdReport raw
  let signature ← parseSignature raw
  pure { raw := raw, header := header, body := body, signature := signature }

/-! ## What each step reads -/

theorem sliceAt_ok {buf v : Bytes} {start length : Nat} {what : String} :
    sliceAt buf start length what = .ok v
      ↔ start + length ≤ buf.length ∧ (Region.mk start length).slice buf = v := by
  unfold sliceAt
  split
  · rename_i h
    constructor
    · intro he; cases he
    · intro he; exact absurd he.1 (by omega)
  · rename_i h
    constructor
    · intro he; injection he with he; exact ⟨by omega, he⟩
    · intro he; rw [he.2]

/-- A length prefix read as a little-endian number. -/
theorem leValue_ok {x : Except ChainError Bytes} {n : Nat} :
    Bytes.leValue <$> x = .ok n ↔ ∃ v, x = .ok v ∧ v.leValue = n := by
  cases x with
  | error e =>
      constructor
      · intro h; cases h
      · rintro ⟨v, hv, -⟩; cases hv
  | ok v =>
      constructor
      · intro h
        exact ⟨v, rfl, by injection h⟩
      · rintro ⟨w, hw, rfl⟩
        cases hw
        rfl

theorem take_ok {body : Bytes} {o n : Nat} {what : String} {p : Bytes × Nat} :
    take body o n what = .ok p
      ↔ o + n ≤ body.length ∧ ((Region.mk o n).slice body, o + n) = p := by
  rw [take, bind_ok]
  simp only [sliceAt_ok, pure_ok]
  constructor
  · rintro ⟨v, ⟨hlen, rfl⟩, hp⟩
    exact ⟨hlen, hp⟩
  · rintro ⟨hlen, hp⟩
    exact ⟨_, ⟨hlen, rfl⟩, hp⟩

/-! ## The layout of a quote -/

/-- The four lengths that a quote states, from the outside in. -/
structure Layout where
  sigLen : Nat
  certSize : Nat
  authSize : Nat
  pckSize : Nat
  deriving DecidableEq, Repr

/-- The bytes of the quote in the region. -/
def read (raw : Bytes) (start length : Nat) : Bytes := (Region.mk start length).slice raw

theorem read_slice {raw : Bytes} {start length s n : Nat} (h : s + n ≤ length) :
    (Region.mk s n).slice (read raw start length) = read raw (start + s) n :=
  Region.slice_slice (o := ⟨start, length⟩) h

namespace Layout

def signatureRegion (l : Layout) : Region := ⟨636, l.sigLen⟩

def certificationRegion (l : Layout) : Region := ⟨770, l.certSize⟩

/-- **What a quote that parses looks like.** Each stated length is the number its prefix
holds, and each area ends inside the area around it. -/
structure Fits (l : Layout) (raw : Bytes) : Prop where
  /-- The signature data ends inside the quote. -/
  signature : l.signatureRegion.stop ≤ raw.length
  /-- The certification data ends inside the signature data. -/
  certification : l.certificationRegion.stop ≤ l.signatureRegion.stop
  /-- The certificate chain ends inside the certification data. -/
  chain : 1226 + l.authSize + l.pckSize ≤ l.certificationRegion.stop
  sigLen : Bytes.leValue (read raw 632 4) = l.sigLen
  certKeyType : Bytes.leValue (read raw 764 2) = 6
  certSize : Bytes.leValue (read raw 766 4) = l.certSize
  authSize : Bytes.leValue (read raw 1218 2) = l.authSize
  pckSize : Bytes.leValue (read raw (1222 + l.authSize) 4) = l.pckSize

/-- The regions that the parser reads, in order. -/
def regions (l : Layout) : List Region :=
  [⟨0, 48⟩,
   ⟨48, 16⟩, ⟨64, 48⟩, ⟨112, 48⟩, ⟨160, 8⟩, ⟨168, 8⟩, ⟨176, 8⟩, ⟨184, 48⟩, ⟨232, 48⟩, ⟨280, 48⟩,
   ⟨328, 48⟩, ⟨376, 48⟩, ⟨424, 48⟩, ⟨472, 48⟩, ⟨520, 48⟩, ⟨568, 64⟩,
   ⟨632, 4⟩, ⟨636, 64⟩, ⟨700, 64⟩, ⟨764, 2⟩, ⟨766, 4⟩,
   ⟨770, 384⟩, ⟨1154, 64⟩, ⟨1218, 2⟩, ⟨1220, l.authSize⟩, ⟨1220 + l.authSize, 2⟩,
   ⟨1222 + l.authSize, 4⟩, ⟨1226 + l.authSize, l.pckSize⟩]

def header (raw : Bytes) : Header :=
  { header := read raw 0 48, version := Bytes.leValue (read raw 0 2)
    attKeyType := Bytes.leValue (read raw 2 2), teeType := Bytes.leValue (read raw 4 4)
    qeVendorId := Bytes.hex (read raw 12 16) }

def tdReport (raw : Bytes) : TdReport :=
  { tdReport := read raw 48 584
    teeTcbSvn := Bytes.hex (read raw 48 16), mrSeam := Bytes.hex (read raw 64 48)
    mrSignerSeam := Bytes.hex (read raw 112 48), seamAttributes := Bytes.hex (read raw 160 8)
    tdAttributes := Bytes.hex (read raw 168 8), xfam := Bytes.hex (read raw 176 8)
    mrTd := Bytes.hex (read raw 184 48), mrConfigId := Bytes.hex (read raw 232 48)
    mrOwner := Bytes.hex (read raw 280 48), mrOwnerConfig := Bytes.hex (read raw 328 48)
    rtmrs := [Bytes.hex (read raw 376 48), Bytes.hex (read raw 424 48),
      Bytes.hex (read raw 472 48), Bytes.hex (read raw 520 48)]
    reportData := read raw 568 64 }

def certificationData (l : Layout) (raw : Bytes) : Certification :=
  { qeReport := read raw 770 384, qeReportSignature := read raw 1154 64
    qeAuthData := read raw 1220 l.authSize
    pckCertKeyType := Bytes.leValue (read raw (1220 + l.authSize) 2)
    pckChainPem := read raw (1226 + l.authSize) l.pckSize
    qeReportData := read raw 1090 64, qeMrEnclave := Bytes.hex (read raw 834 32)
    qeMrSigner := Bytes.hex (read raw 898 32) }

def signatureArea (l : Layout) (raw : Bytes) : SignatureArea :=
  { signatureData := read raw 636 l.sigLen, ecdsaSignature := read raw 636 64
    attestPubKey := read raw 700 64, certKeyType := 6, certification := l.certificationData raw }

/-- The quote that a byte string of this layout is. -/
def quote (l : Layout) (raw : Bytes) : Quote :=
  { raw := raw, header := header raw, body := tdReport raw, signature := l.signatureArea raw }

end Layout

/-! ## Which byte strings parse -/

theorem parseHeader_ok {raw : Bytes} {h : Header} :
    parseHeader raw = .ok h ↔ 48 ≤ raw.length ∧ Layout.header raw = h := by
  simp only [parseHeader, bind_ok, sliceAt_ok, pure_ok, HEADER_SIZE, Nat.zero_add]
  constructor
  · rintro ⟨_, ⟨hlen, rfl⟩, rfl⟩
    refine ⟨hlen, ?_⟩
    rw [← read, read_slice (by decide), read_slice (by decide), read_slice (by decide),
      read_slice (by decide)]
    rfl
  · rintro ⟨hlen, rfl⟩
    refine ⟨_, ⟨hlen, rfl⟩, ?_⟩
    rw [← read, read_slice (by decide), read_slice (by decide), read_slice (by decide),
      read_slice (by decide)]
    rfl

/-- A take inside the body is a read of the quote. -/
private theorem take_body {raw : Bytes} (hraw : 632 ≤ raw.length) {o n : Nat} (h : o + n ≤ 584)
    (what : String) :
    take (read raw 48 584) o n what = .ok (read raw (48 + o) n, o + n) := by
  have hlen : (read raw 48 584).length = 584 := Region.length_slice hraw
  rw [take_ok, hlen, read_slice h]
  exact ⟨h, rfl⟩

/-- The takes of the body never run past it, and they consume it exactly. -/
theorem parseTdReport_ok {raw : Bytes} {b : TdReport} :
    parseTdReport raw = .ok b ↔ 632 ≤ raw.length ∧ Layout.tdReport raw = b := by
  have hrun : 632 ≤ raw.length → parseTdReport raw = .ok (Layout.tdReport raw) := by
    intro hraw
    have hbody : sliceAt raw 48 584 "TD report body" = .ok (read raw 48 584) :=
      sliceAt_ok.mpr ⟨hraw, rfl⟩
    unfold parseTdReport
    rw [HEADER_SIZE, TD_REPORT_SIZE, hbody]
    simp only [take_body hraw, bind, Except.bind, Nat.reduceAdd, Nat.reduceLeDiff]
    rfl
  constructor
  · intro h
    have hraw : 632 ≤ raw.length := by
      rw [parseTdReport, bind_ok] at h
      obtain ⟨body, hbody, -⟩ := h
      exact (sliceAt_ok.mp hbody).1
    rw [hrun hraw] at h
    injection h with h
    exact ⟨hraw, h⟩
  · rintro ⟨hraw, rfl⟩
    exact hrun hraw

/-- A bounds-checked slice of a region of the quote is a read of the quote. -/
private theorem sliceAt_read {raw v : Bytes} {start length o n : Nat} {what : String}
    (h : start + length ≤ raw.length) :
    sliceAt (read raw start length) o n what = .ok v
      ↔ o + n ≤ length ∧ read raw (start + o) n = v := by
  have hlen : (read raw start length).length = length := Region.length_slice h
  rw [sliceAt_ok, hlen]
  constructor
  · rintro ⟨hle, rfl⟩
    exact ⟨hle, (read_slice hle).symm⟩
  · rintro ⟨hle, rfl⟩
    exact ⟨hle, read_slice hle⟩

theorem parseCertification_ok {raw : Bytes} {n : Nat} (h : 770 + n ≤ raw.length)
    {c : Certification} :
    parseCertification (read raw 770 n) = .ok c
      ↔ ∃ l : Layout, 456 + l.authSize + l.pckSize ≤ n
        ∧ Bytes.leValue (read raw 1218 2) = l.authSize
        ∧ Bytes.leValue (read raw (1222 + l.authSize) 4) = l.pckSize
        ∧ l.certificationData raw = c := by
  have hkey : ∀ a, 770 + (0 + 384 + 64 + 2 + a) = 1220 + a := fun a => by omega
  have hsize : ∀ a, 770 + (0 + 384 + 64 + 2 + a + 2) = 1222 + a := fun a => by omega
  have hchain : ∀ a, 770 + (0 + 384 + 64 + 2 + a + 2 + 4) = 1226 + a := fun a => by omega
  -- the three views of the QE report are reads of the quote too
  have hview : ∀ start length, start + length ≤ 384 →
      (Region.mk start length).slice (read raw 770 384) = read raw (770 + start) length :=
    fun _ _ hle => read_slice hle
  simp only [parseCertification, bind_ok, leValue_ok, sliceAt_read h, pure_ok, SGX_REPORT_SIZE,
    hkey, hsize, hchain]
  constructor
  · rintro ⟨_, ⟨-, rfl⟩, _, ⟨-, rfl⟩, a, ⟨_, ⟨-, rfl⟩, ha⟩, _, ⟨-, rfl⟩, t, ⟨_, ⟨-, rfl⟩, ht⟩,
      p, ⟨_, ⟨-, rfl⟩, hp⟩, _, ⟨hend, rfl⟩, hc⟩
    have hle : 456 + a + p ≤ n := by omega
    refine ⟨⟨0, 0, a, p⟩, hle, ha, hp, ?_⟩
    rw [← hc, Nat.add_zero, hview _ _ (by decide), hview _ _ (by decide), hview _ _ (by decide),
      ← ht]
    rfl
  · rintro ⟨l, hend, ha, hp, hc⟩
    refine ⟨_, ⟨by omega, rfl⟩, _, ⟨by omega, rfl⟩, _, ⟨_, ⟨by omega, rfl⟩, ha⟩, _,
      ⟨by omega, rfl⟩, _, ⟨_, ⟨by omega, rfl⟩, rfl⟩, _, ⟨_, ⟨by omega, rfl⟩, hp⟩, _,
      ⟨by omega, rfl⟩, ?_⟩
    rw [← hc, Nat.add_zero, hview _ _ (by decide), hview _ _ (by decide), hview _ _ (by decide)]
    rfl

theorem parseSignature_ok {raw : Bytes} {s : SignatureArea} :
    parseSignature raw = .ok s ↔ ∃ l : Layout, l.Fits raw ∧ l.signatureArea raw = s := by
  rw [parseSignature, bind_ok]
  simp only [leValue_ok, sliceAt_ok, HEADER_SIZE, TD_REPORT_SIZE]
  constructor
  · rintro ⟨n, ⟨_, ⟨-, rfl⟩, hn⟩, h⟩
    rw [bind_ok] at h
    simp only [sliceAt_ok] at h
    obtain ⟨_, ⟨hsig, rfl⟩, h⟩ := h
    rw [← read] at h
    simp only [bind_ok, leValue_ok, sliceAt_read hsig, refuseIf_ok, pure_ok, not_not] at h
    obtain ⟨_, ⟨-, rfl⟩, _, ⟨-, rfl⟩, t, ⟨_, ⟨-, rfl⟩, ht⟩, m, ⟨_, ⟨-, rfl⟩, hm⟩, _, ⟨hcert, rfl⟩, -,
      rfl, c, hc, hs⟩ := h
    have hin : 770 + m ≤ raw.length := by omega
    obtain ⟨l, hchain, hauth, hpck, hdata⟩ := (parseCertification_ok hin).mp hc
    refine ⟨⟨n, m, l.authSize, l.pckSize⟩, ?_, ?_⟩
    · refine ⟨hsig, ?_, ?_, hn, ht, hm, hauth, hpck⟩
      · show 770 + m ≤ 636 + n
        omega
      · show 1226 + l.authSize + l.pckSize ≤ 770 + m
        omega
    · rw [← hs, ← hdata]
      rfl
  · rintro ⟨l, hfits, hs⟩
    have hsig : 636 + l.sigLen ≤ raw.length := hfits.signature
    have hcert : 770 + l.certSize ≤ 636 + l.sigLen := hfits.certification
    have hchain : 1226 + l.authSize + l.pckSize ≤ 770 + l.certSize := hfits.chain
    refine ⟨l.sigLen, ⟨_, ⟨by omega, rfl⟩, hfits.sigLen⟩, ?_⟩
    rw [bind_ok]
    simp only [sliceAt_ok]
    refine ⟨_, ⟨hsig, rfl⟩, ?_⟩
    rw [← read]
    simp only [bind_ok, leValue_ok, sliceAt_read hsig, refuseIf_ok, pure_ok, not_not]
    refine ⟨_, ⟨by omega, rfl⟩, _, ⟨by omega, rfl⟩, 6, ⟨_, ⟨by omega, rfl⟩, hfits.certKeyType⟩, _,
      ⟨_, ⟨by omega, rfl⟩, hfits.certSize⟩, _, ⟨by omega, rfl⟩, (), rfl,
      l.certificationData raw, ?_, hs⟩
    exact (parseCertification_ok (by omega)).mpr
      ⟨l, by omega, hfits.authSize, hfits.pckSize, rfl⟩

/-- **Which byte strings parse, and to what.** -/
theorem parseQuote_ok {raw : Bytes} {q : Quote} :
    parseQuote raw = .ok q ↔ ∃ l : Layout, l.Fits raw ∧ l.quote raw = q := by
  simp only [parseQuote, bind_ok, parseHeader_ok, parseTdReport_ok, parseSignature_ok, pure_ok]
  constructor
  · rintro ⟨_, ⟨-, rfl⟩, _, ⟨-, rfl⟩, _, ⟨l, hfits, rfl⟩, rfl⟩
    exact ⟨l, hfits, rfl⟩
  · rintro ⟨l, hfits, rfl⟩
    have hsig : 636 + l.sigLen ≤ raw.length := hfits.signature
    exact ⟨_, ⟨by omega, rfl⟩, _, ⟨by omega, rfl⟩, _, ⟨l, hfits, rfl⟩, rfl⟩

end AttestedCompute.Tdx
