import AttestedCompute.Tdx.Packed
import AttestedCompute.Tdx.Parse

/-!
# The two quote decoders agree

A quote is decoded twice, by code that shares nothing: the gate slices bytes, the
verifier shifts and masks one big number. On every byte string that the gate parses,
the two read the same fields, so what the verifier binds is what the gate extracted.

The layout half (`WellNested`) is what makes the agreement mean something: a field is a
stretch of the quote of its own, never a neighbour's bytes.
-/

namespace AttestedCompute.Tdx

open TdxQuoteV4

/-- The spelling of a digest: 64 lowercase hexadecimal digits. -/
def CanonicalDigest (s : String) : Prop :=
  s.length = 64 ∧ ∀ c ∈ s.toList, (Bytes.hexNibble c).isSome

/-- Everything the parser keeps of what it read, in order, in hexadecimal. -/
def Quote.pieces (q : Quote) : List String :=
  [q.header.header.hex, q.body.teeTcbSvn, q.body.mrSeam, q.body.mrSignerSeam,
    q.body.seamAttributes, q.body.tdAttributes, q.body.xfam, q.body.mrTd, q.body.mrConfigId,
    q.body.mrOwner, q.body.mrOwnerConfig] ++ q.body.rtmrs ++
  [q.body.reportData.hex, q.signature.ecdsaSignature.hex, q.signature.attestPubKey.hex,
    q.signature.certification.qeReport.hex, q.signature.certification.qeReportSignature.hex,
    q.signature.certification.qeAuthData.hex, q.signature.certification.pckChainPem.hex]

namespace Layout

/-- The regions whose bytes the parser keeps: all but the lengths and the two type words. -/
def stored (l : Layout) : List Region :=
  [⟨0, 48⟩,
   ⟨48, 16⟩, ⟨64, 48⟩, ⟨112, 48⟩, ⟨160, 8⟩, ⟨168, 8⟩, ⟨176, 8⟩, ⟨184, 48⟩, ⟨232, 48⟩, ⟨280, 48⟩,
   ⟨328, 48⟩, ⟨376, 48⟩, ⟨424, 48⟩, ⟨472, 48⟩, ⟨520, 48⟩, ⟨568, 64⟩,
   ⟨636, 64⟩, ⟨700, 64⟩, ⟨770, 384⟩, ⟨1154, 64⟩, ⟨1220, l.authSize⟩,
   ⟨1226 + l.authSize, l.pckSize⟩]

/-- Where the certificate chain ends. -/
def stop (l : Layout) : Nat := 1226 + l.authSize + l.pckSize

/-- The regions are laid end to end from the first byte of the quote. -/
theorem consecutive_regions (l : Layout) : Region.Consecutive 0 l.regions l.stop := by
  have hsize : 1222 + l.authSize = 1220 + l.authSize + 2 := by omega
  have hchain : 1226 + l.authSize = 1222 + l.authSize + 4 := by omega
  unfold regions
  simp [Region.Consecutive, Region.stop, stop, hsize, hchain]

theorem stored_sublist (l : Layout) : l.stored.Sublist l.regions := by
  refine (List.Sublist.refl (l.regions.take 16)).append ?_
  refine .cons _ (.cons_cons _ (.cons_cons _ (.cons _ (.cons _ (.cons_cons _ (.cons_cons _
    (.cons _ (.cons_cons _ (.cons _ (.cons _ (.cons_cons _ .slnil)))))))))))

theorem pieces_quote (l : Layout) (raw : Bytes) :
    (l.quote raw).pieces = l.stored.map fun r => Bytes.hex (r.slice raw) := rfl

end Layout

/-- The accessors of the packed form read the slices the parser extracted. -/
structure AccessorsAgree (raw : Bytes) (q : Quote) : Prop where
  /-- `mrtd` is the value of the 48 bytes that the parser spells. -/
  mrTd : ∃ v : Bytes, v.length = 48 ∧ q.body.mrTd = v.hex
    ∧ TdxQuoteV4.mrTd (.ofBytes raw) = v.beValue
  /-- `mrconfigid` is the value of the 48 bytes that the parser spells. -/
  mrConfigId : ∃ v : Bytes, v.length = 48 ∧ q.body.mrConfigId = v.hex
    ∧ TdxQuoteV4.mrConfigId (.ofBytes raw) = v.beValue
  /-- The two halves of the report data are the values of its two halves. -/
  reportData : q.body.reportData.length = 64
    ∧ reportDataStatement (.ofBytes raw) = Bytes.beValue (q.body.reportData.take 32)
    ∧ reportDataTail (.ofBytes raw) = Bytes.beValue (q.body.reportData.drop 32)

/-- The bindings hold exactly when the extracted fields have the bound form. -/
structure BindingsAgree (raw : Bytes) (q : Quote) (digest : Bytes) : Prop where
  /-- The measured configuration is `01`, the compose hash and fifteen zero bytes. -/
  compose : quoteBindsCompose (.ofBytes raw) digest.hex = true
    ↔ q.body.mrConfigId = Bytes.hex ((1 :: digest) ++ List.replicate 15 0)
  /-- The report data is the digest and thirty-two zero bytes. -/
  statement : quoteBindsStatement (.ofBytes raw) digest.hex = true
    ↔ q.body.reportData = digest ++ List.replicate 32 0

/-- Every region the parser extracted has its own place inside the region around it. -/
structure WellNested (raw : Bytes) (q : Quote) (l : Layout) : Prop where
  /-- The areas are the ones that the length prefixes state. -/
  lengths : q.signature.signatureData = l.signatureRegion.slice raw ∧ l.Fits raw
  signature : l.signatureRegion.Inside ⟨0, raw.length⟩
  certification : l.certificationRegion.Inside l.signatureRegion
  /-- The last twelve regions, from the QE report to the certificate chain. -/
  chain : ∀ r ∈ l.regions.drop 21, r.Inside l.certificationRegion
  /-- What the parser kept is the bytes of its regions. -/
  pieces : q.pieces = l.stored.map fun r => Bytes.hex (r.slice raw)
  stored : l.stored.Sublist l.regions
  inside : ∀ r ∈ l.regions, r.Inside ⟨0, raw.length⟩
  consecutive : Region.Consecutive 0 l.regions l.stop
  disjoint : l.regions.Pairwise Region.Disjoint

theorem exists_canonicalDigest {s : String} (h : CanonicalDigest s) :
    ∃ digest : Bytes, digest.length = 32 ∧ digest.hex = s := by
  obtain ⟨digest, hlen, hhex⟩ := Bytes.exists_hex_eq 32 h.1 h.2
  exact ⟨digest, hlen, hhex.trans String.ofList_toList⟩

/-! ## The accessors -/

/-- A field of the packed form is the value of a read. -/
theorem field_read {raw : Bytes} {start width : Nat} (h : start + width ≤ raw.length) :
    (PackedBytes.ofBytes raw).field start width = Bytes.beValue (read raw start width) :=
  PackedBytes.field_ofBytes h

theorem length_read {raw : Bytes} {start width : Nat} (h : start + width ≤ raw.length) :
    (read raw start width).length = width :=
  Region.length_slice h

theorem accessorsAgree {l : Layout} {raw : Bytes} (h : 632 ≤ raw.length) :
    AccessorsAgree raw (l.quote raw) := by
  have hfield : ∀ start width, start + width ≤ 632 →
      (PackedBytes.ofBytes raw).field start width = Bytes.beValue (read raw start width) :=
    fun start width hle => field_read (Nat.le_trans hle h)
  refine ⟨⟨_, length_read (by omega), rfl, hfield 184 48 (by decide)⟩,
    ⟨_, length_read (by omega), rfl, hfield 232 48 (by decide)⟩, length_read (by omega), ?_, ?_⟩
  · have htake : (read raw 568 64).take 32 = read raw 568 32 := read_slice (s := 0) (by decide)
    exact (hfield 568 32 (by decide)).trans (congrArg Bytes.beValue htake.symm)
  · have hlen : ((read raw 568 64).drop 32).length = 32 := by
      rw [List.length_drop, length_read (by omega)]
    have hdrop : (read raw 568 64).drop 32 = read raw 600 32 := by
      rw [← List.take_of_length_le (Nat.le_of_eq hlen)]
      exact read_slice (s := 32) (by decide)
    exact (hfield 600 32 (by decide)).trans (congrArg Bytes.beValue hdrop.symm)

/-! ## The bindings -/

theorem expectedMrConfigIdHex_hex (digest : Bytes) :
    expectedMrConfigIdHex digest.hex = Bytes.hex ((1 :: digest) ++ List.replicate 15 0) := by
  have htag : Bytes.hex [1] = "01" := by decide
  have hzeros : Bytes.hex (List.replicate 15 0) = "000000000000000000000000000000" := by decide
  rw [← List.singleton_append, Bytes.hex_append, Bytes.hex_append, htag, hzeros]
  rfl

theorem quoteBindsCompose_iff {raw : Bytes} {q : Quote} (h : AccessorsAgree raw q)
    (digest : Bytes) :
    quoteBindsCompose (.ofBytes raw) digest.hex = true
      ↔ q.body.mrConfigId = Bytes.hex ((1 :: digest) ++ List.replicate 15 0) := by
  obtain ⟨v, hlen, hspell, hvalue⟩ := h.mrConfigId
  rw [quoteBindsCompose, beq_iff_eq, mrConfigIdHex, hvalue, hexOfNat_beValue hlen, hspell,
    expectedMrConfigIdHex_hex]

theorem quoteBindsStatement_iff {raw : Bytes} {q : Quote} (h : AccessorsAgree raw q)
    {digest : Bytes} (hdigest : digest.length = 32) :
    quoteBindsStatement (.ofBytes raw) digest.hex = true
      ↔ q.body.reportData = digest ++ List.replicate 32 0 := by
  obtain ⟨hlen, hstatement, htail⟩ := h.reportData
  have hfront : (q.body.reportData.take 32).length = 32 := by
    rw [List.length_take, hlen]
    rfl
  have hback : (q.body.reportData.drop 32).length = 32 := by
    rw [List.length_drop, hlen]
  rw [quoteBindsStatement, Bool.and_eq_true, beq_iff_eq, beq_iff_eq, reportDataStatementHex,
    hstatement, htail, hexOfNat_beValue hfront, Bytes.beValue_eq_zero_iff, hback]
  constructor
  · rintro ⟨hhex, hzero⟩
    rw [← Bytes.hex_injective hhex, ← hzero, List.take_append_drop]
  · intro hdata
    rw [hdata, List.take_left' hdigest, List.drop_left' hdigest]
    exact ⟨rfl, rfl⟩

/-! ## The layout -/

theorem wellNested {l : Layout} {raw : Bytes} (h : l.Fits raw) : WellNested raw (l.quote raw) l := by
  have hsig : 636 + l.sigLen ≤ raw.length := h.signature
  have hcert : 770 + l.certSize ≤ 636 + l.sigLen := h.certification
  have hchain : l.stop ≤ 770 + l.certSize := h.chain
  have hregions := l.consecutive_regions
  have hinner : Region.Consecutive 770 (l.regions.drop 21) l.stop := by
    have hsplit := hregions
    rw [← List.take_append_drop 21 l.regions] at hsplit
    obtain ⟨middle, -, hrest⟩ := hsplit.of_append
    have hmiddle : 770 = middle := hrest.1
    rw [hmiddle]
    exact hrest
  refine ⟨⟨rfl, h⟩, ⟨Nat.zero_le _, ?_⟩, ⟨?_, hcert⟩, ?_, l.pieces_quote raw, l.stored_sublist, ?_,
    hregions, hregions.pairwise_disjoint⟩
  · show 636 + l.sigLen ≤ 0 + raw.length
    omega
  · show 636 ≤ 770
    omega
  · intro r hr
    obtain ⟨hlow, hhigh⟩ := hinner.inside r hr
    exact ⟨hlow, Nat.le_trans hhigh hchain⟩
  · intro r hr
    obtain ⟨-, hhigh⟩ := hregions.inside r hr
    refine ⟨Nat.zero_le _, ?_⟩
    show r.stop ≤ 0 + raw.length
    omega

/-- **The two decoders agree on every quote that parses.**

The packed accessors read the extracted slices, the bindings hold exactly of the bound
field values for every canonical digest, and every extracted region is a stretch of its
own inside the area around it. -/
theorem parseQuote_agrees {raw : Bytes} {q : Quote} (h : parseQuote raw = .ok q) :
    AccessorsAgree raw q
      ∧ (∀ s, CanonicalDigest s →
          ∃ digest : Bytes, digest.length = 32 ∧ digest.hex = s ∧ BindingsAgree raw q digest)
      ∧ ∃ l, WellNested raw q l := by
  obtain ⟨l, hfits, rfl⟩ := parseQuote_ok.mp h
  have hlen : 632 ≤ raw.length := by
    have hsig : 636 + l.sigLen ≤ raw.length := hfits.signature
    omega
  have hacc := accessorsAgree (l := l) hlen
  refine ⟨hacc, fun s hs => ?_, l, wellNested hfits⟩
  obtain ⟨digest, hdigest, hhex⟩ := exists_canonicalDigest hs
  exact ⟨digest, hdigest, hhex, quoteBindsCompose_iff hacc digest,
    quoteBindsStatement_iff hacc hdigest⟩

/-- A quote with a measured configuration, a statement and empty certification payloads. -/
def sampleQuote : Bytes :=
  [4, 0, 2, 0, 0x81, 0, 0, 0] ++ List.replicate 224 0
    ++ (1 :: List.replicate 32 0xab) ++ List.replicate 303 0
    ++ List.replicate 32 0xcd ++ List.replicate 32 0
    ++ [0x4e, 2, 0, 0] ++ List.replicate 128 0 ++ [6, 0] ++ [0xc8, 1, 0, 0] ++ List.replicate 456 0

/-- The theorem at one quote. -/
theorem parseQuote_sampleQuote_agrees :
    ∃ q, parseQuote sampleQuote = .ok q ∧ AccessorsAgree sampleQuote q
      ∧ (∀ s, CanonicalDigest s → ∃ digest : Bytes, digest.length = 32 ∧ digest.hex = s
          ∧ BindingsAgree sampleQuote q digest)
      ∧ ∃ l, WellNested sampleQuote q l := by
  have hfits : Layout.Fits ⟨590, 456, 0, 0⟩ sampleQuote :=
    ⟨by decide +kernel, by decide, by decide, by decide +kernel, by decide +kernel,
      by decide +kernel, by decide +kernel, by decide +kernel⟩
  have hparse : parseQuote sampleQuote = .ok _ := parseQuote_ok.mpr ⟨_, hfits, rfl⟩
  exact ⟨_, hparse, parseQuote_agrees hparse⟩

end AttestedCompute.Tdx
