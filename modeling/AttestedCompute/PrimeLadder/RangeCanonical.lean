import AttestedCompute.PrimeLadder.RangeHeader

/-!
# Canonical range files

A range file that the verifier accepts is the file the writer writes for the rungs in it,
but for one thing: the index in the header is compared with `==`, so an equal Boolean or
float passes. The other way round, what the writer writes for checked rungs with steps
inside the ladder bound is accepted, as long as the steps fit a varint of 32 bytes.
-/

namespace AttestedCompute.PrimeLadder

open Fallible (bind_ok pure_ok)
open JsonLoads (Value Floats PlainText)

/-! ## The rungs of a range -/

/-- A step of the ladder: up, and short enough that the even numbers reach the next rung. -/
def Spaced (p : CampaignParameters) (lower upper : Int) : Prop :=
  lower < upper ∧ upper + 2 ≤ lower + p.maximumGap

/-- The variables of the loop after some rungs. -/
def observeFrom (p : CampaignParameters) : Nat → RangeScan → List Rung → RangeScan
  | _, scan, [] => scan
  | ordinal, scan, rung :: rest => observeFrom p (ordinal + 1) (scan.observe p ordinal rung) rest

/-- **The loop from its second round on**: the coverage is always that of the last rung. -/
theorem scanList_next {s : Surroundings} {p : CampaignParameters} (hp : p.Valid s.isPrime)
    {base : Int} {rungs : List Rung} {ordinal : Nat} {scan result : RangeScan}
    (hcovered : scan.coveredThrough = scan.previous + p.maximumGap) :
    scanList s p base (ordinal + 1) scan rungs = .ok result ↔
      (∀ rung ∈ rungs, checkRung s rung p.prothExponent = .ok ())
        ∧ (scan.previous :: rungs.map Rung.number).IsChain (Spaced p)
        ∧ observeFrom p (ordinal + 1) scan rungs = result := by
  induction rungs generalizing ordinal scan with
  | nil => simp [scanList, observeFrom]
  | cons rung rungs ih =>
      have hfirst := hp.firstEven
      have hlast := hp.lastEven
      have hspaced : (scan.previous < rung.number ∧ rung.number - scan.previous ≤ p.maximumGap
          ∧ rung.number + p.binaryFirstEven ≤ scan.coveredThrough + 2)
            ↔ Spaced p scan.previous rung.number := by
        unfold Spaced
        omega
      rw [scanList, bind_ok, List.map_cons, List.isChain_cons_cons, List.forall_mem_cons, ← hspaced]
      simp only [scanRung_ok, ne_eq, Nat.succ_ne_zero, if_false, not_false_eq_true, forall_const]
      have hnext : Spaced p scan.previous rung.number →
          ((scan.observe p (ordinal + 1) rung).coveredThrough
            = (scan.observe p (ordinal + 1) rung).previous + p.maximumGap) := by
        intro hstep
        have hup := hstep.1
        show max scan.coveredThrough (rung.number + p.binaryLastEven) = rung.number + p.maximumGap
        omega
      constructor
      · rintro ⟨_, ⟨hup, hcheck, hgap, rfl⟩, hrest⟩
        obtain ⟨hall, hchain, hresult⟩ := (ih (hnext (hspaced.mp ⟨hup, hgap⟩))).mp hrest
        exact ⟨⟨hcheck, hall⟩, ⟨⟨hup, hgap⟩, hchain⟩, hresult⟩
      · rintro ⟨⟨hcheck, hall⟩, ⟨hstep, hchain⟩, hresult⟩
        exact ⟨_, ⟨hstep.1, hcheck, hstep.2, rfl⟩, (ih (hnext (hspaced.mp hstep))).mpr
          ⟨hall, hchain, hresult⟩⟩

/-- **What the loop accepts**: checked rungs from the base on, each a step above the last. -/
theorem scanList_ok {s : Surroundings} {p : CampaignParameters} (hp : p.Valid s.isPrime)
    {base : Int} (hbase : 0 ≤ base) {first : Rung} {rungs : List Rung} {result : RangeScan} :
    scanList s p base 0 { previous := base } (first :: rungs) = .ok result ↔
      first.number = base ∧ (∀ rung ∈ first :: rungs, checkRung s rung p.prothExponent = .ok ())
        ∧ ((first :: rungs).map Rung.number).IsChain (Spaced p)
        ∧ observeFrom p 0 { previous := base } (first :: rungs) = result := by
  have hlast := hp.lastEven
  have hgap := hp.gap
  rw [scanList, bind_ok]
  simp only [scanRung_ok, if_pos]
  constructor
  · rintro ⟨_, ⟨rfl, hcheck, -, rfl⟩, hrest⟩
    obtain ⟨hall, hchain, hresult⟩ := (scanList_next hp (by
      show max 0 (first.number + p.binaryLastEven) = first.number + p.maximumGap
      omega)).mp hrest
    exact ⟨rfl, List.forall_mem_cons.mpr ⟨hcheck, hall⟩, hchain, hresult⟩
  · rintro ⟨rfl, hall, hchain, hresult⟩
    refine ⟨_, ⟨rfl, hall first (by simp), fun h => absurd rfl h, rfl⟩, (scanList_next hp ?_).mpr
      ⟨fun rung hrung => hall rung (List.mem_cons_of_mem _ hrung), hchain, hresult⟩⟩
    show max 0 (first.number + p.binaryLastEven) = first.number + p.maximumGap
    omega

/-! ## Accepted files are written files -/

/-- The bytes of a range file, with the header and the entries it holds. -/
def rangeBytes (floats : Floats) (header : Value) (entries : Bytes) : Bytes :=
  let headerBytes := JsonLoads.dumpsAscii floats header ++ [0x0A]
  MAGIC ++ Varint.encode headerBytes.length ++ headerBytes ++ entries

/-- A file holds the entries of some rungs, under a header with the index as it is spelled. -/
structure HoldsRange (s : Surroundings) (p : CampaignParameters) (index : Nat) (previous : Text)
    (file : Bytes) (first : Int) (rungs : List Rung) (spelled : Value) : Prop where
  readable : ReadableFrom first rungs
  first_nonneg : 0 ≤ first
  fits : HeaderFits p index first.toNat rungs.length
  index_equal : JsonLoads.equals s.floats (.int index) spelled = true
  bytes : ∃ hash entries, parametersSha256 s.isPrime p = .ok hash
    ∧ entriesFrom first rungs = .ok entries
    ∧ (JsonLoads.dumpsAscii s.floats (headerValue p hash previous index first.toNat rungs.length
        spelled)).length + 1 ≤ MAX_HEADER_BYTES
    ∧ file = rangeBytes s.floats (headerValue p hash previous index first.toNat rungs.length spelled)
        entries

/-- The rungs a verified range is about. -/
structure VerifiedRange.Describes (result : VerifiedRange) (index : Nat) (file : Bytes)
    (rungs : List Rung) : Prop where
  index_eq : result.index = index
  sha256_eq : result.sha256 = sha256Hex file
  first_eq : rungs.head? = some result.first
  last_eq : rungs.getLast? = some result.last
  count_eq : result.recordCount = rungs.length

/-- What the verifier has checked of the rungs of a range. -/
structure IsLadder (s : Surroundings) (p : CampaignParameters) (index : Nat) (rungs : List Rung) :
    Prop where
  checked : ∀ rung ∈ rungs, checkRung s rung p.prothExponent = .ok ()
  spaced : (rungs.map Rung.number).IsChain (Spaced p)
  left : ∀ rung ∈ rungs.head?, |rung.number - index * p.rangeWidth| ≤ p.endpointTolerance
  right : ∀ rung ∈ rungs.getLast?, |rung.number - (index + 1) * p.rangeWidth| ≤ p.endpointTolerance

theorem observeFrom_first (p : CampaignParameters) (rungs : List Rung) (ordinal : Nat)
    (scan : RangeScan) : (observeFrom p ordinal scan rungs).first = scan.first.or rungs.head? := by
  induction rungs generalizing ordinal scan with
  | nil => simp [observeFrom]
  | cons rung rungs ih =>
      rw [observeFrom, ih]
      show (scan.first.or (some rung)).or rungs.head? = scan.first.or (some rung)
      cases scan.first <;> rfl

theorem observeFrom_last (p : CampaignParameters) (rungs : List Rung) (ordinal : Nat)
    (scan : RangeScan) : (observeFrom p ordinal scan rungs).last = rungs.getLast?.or scan.last := by
  induction rungs generalizing ordinal scan with
  | nil => simp [observeFrom]
  | cons rung rungs ih =>
      rw [observeFrom, ih, List.getLast?_cons]
      show rungs.getLast?.or (some rung) = _
      cases rungs.getLast? <;> rfl

/-- The coverage after some rungs is that of the last one. -/
theorem observeFrom_covered {p : CampaignParameters} (hlast : p.binaryLastEven = p.maximumGap)
    {rungs : List Rung} {ordinal : Nat} {scan : RangeScan}
    (hcovered : scan.coveredThrough ≤ scan.previous + p.maximumGap)
    (hchain : (scan.previous :: rungs.map Rung.number).IsChain (Spaced p)) :
    ∀ rung ∈ rungs.getLast?, (observeFrom p ordinal scan rungs).coveredThrough
      = rung.number + p.maximumGap := by
  induction rungs generalizing ordinal scan with
  | nil => exact fun rung h => absurd h (by simp)
  | cons rung rungs ih =>
      rw [List.map_cons, List.isChain_cons_cons] at hchain
      obtain ⟨⟨hup, -⟩, hchain⟩ := hchain
      have hnext : (scan.observe p ordinal rung).coveredThrough = rung.number + p.maximumGap := by
        show max scan.coveredThrough (rung.number + p.binaryLastEven) = _
        omega
      cases rungs with
      | nil =>
          intro r hr
          obtain rfl := Option.some.inj hr
          exact hnext
      | cons next rungs =>
          intro r hr
          rw [List.getLast?_cons_cons] at hr
          exact @ih (ordinal + 1) (scan.observe p ordinal rung) hnext.le hchain r hr

theorem observeFirst_covered {isPrime : Int → Bool} {p : CampaignParameters} (hp : p.Valid isPrime)
    {base : Int} {first last : Rung} {rungs : List Rung} (hfirst : 0 ≤ first.number)
    (hchain : ((first :: rungs).map Rung.number).IsChain (Spaced p))
    (hlast : (first :: rungs).getLast? = some last) :
    (observeFrom p 0 { previous := base } (first :: rungs)).coveredThrough
      = last.number + p.maximumGap := by
  have hgap := hp.gap
  have hcovered : (RangeScan.observe p 0 { previous := base } first).coveredThrough
      = first.number + p.maximumGap := by
    show max 0 (first.number + p.binaryLastEven) = _
    rw [hp.lastEven]
    omega
  cases rungs with
  | nil =>
      obtain rfl := Option.some.inj hlast
      exact hcovered
  | cons next rungs =>
      rw [List.getLast?_cons_cons] at hlast
      exact @observeFrom_covered p hp.lastEven (next :: rungs) 1
        (RangeScan.observe p 0 { previous := base } first) hcovered.le hchain last hlast

theorem finishRange_ok {p : CampaignParameters} {index count : Nat} {file : Bytes}
    {scan : RangeScan} {result : VerifiedRange} :
    finishRange p index count file scan = .ok result ↔
      scan.first = some result.first ∧ scan.last = some result.last
        ∧ |result.first.number - index * p.rangeWidth| ≤ p.endpointTolerance
        ∧ |result.last.number - (index + 1) * p.rangeWidth| ≤ p.endpointTolerance
        ∧ result.index = index ∧ result.sha256 = sha256Hex file ∧ result.recordCount = count
        ∧ result.coveredThrough = scan.coveredThrough
        ∧ result.maximumObservedGap = scan.maximumObservedGap
        ∧ result.evidenceCounts = scan.evidenceCounts
        ∧ result.generalCertificateSha256s = scan.generalCertificates.insertionSort (· ≤ ·) := by
  obtain ⟨i, sha, first, last, n, covered, gap, counts, certificates⟩ := result
  unfold finishRange
  cases hfirst : scan.first with
  | none => simp
  | some f =>
      cases hlast : scan.last with
      | none => simp
      | some l =>
          simp only [bind_ok, raiseIf_ok, not_lt, pure_ok, VerifiedRange.mk.injEq, Option.some.injEq]
          constructor
          · rintro ⟨_, hleft, _, hright, hi, hsha, rfl, rfl, hn, hcovered, hgap, hcounts, hcert⟩
            exact ⟨rfl, rfl, hleft, hright, hi.symm, hsha.symm, hn.symm, hcovered.symm, hgap.symm,
              hcounts.symm, hcert.symm⟩
          · rintro ⟨rfl, rfl, hleft, hright, hi, hsha, hn, hcovered, hgap, hcounts, hcert⟩
            exact ⟨(), hleft, (), hright, hi.symm, hsha.symm, rfl, rfl, hn.symm, hcovered.symm,
              hgap.symm, hcounts.symm, hcert.symm⟩

/-- **What `verify_range_file` reads**: a ladder, and the result is what the end of the verifier
makes of the loop over it. -/
theorem verifyRangeFile_scanned {s : Surroundings} {p : CampaignParameters} {index : Nat}
    {previous : Text} {file : Bytes} {result : VerifiedRange}
    (h : verifyRangeFile s p index previous file = .ok result) :
    ∃ rungs spelled, result.Describes index file rungs ∧ IsLadder s p index rungs
      ∧ HoldsRange s p index previous file result.first.number rungs spelled
      ∧ finishRange p index rungs.length file
          (observeFrom p 0 { previous := result.first.number } rungs) = .ok result := by
  unfold verifyRangeFile at h
  obtain ⟨hash, hhash, h⟩ := bind_ok.mp h
  obtain ⟨_, hmagic, h⟩ := bind_ok.mp h
  obtain ⟨⟨headerLength, stream⟩, hlength, h⟩ := bind_ok.mp h
  obtain ⟨_, hsize, h⟩ := bind_ok.mp h
  have hp := valid_of_parametersSha256 hhash
  have hmagic := not_not.mp (raiseIf_ok.mp hmagic)
  have hsize := not_lt.mp (raiseIf_ok.mp hsize)
  obtain ⟨hstream, -⟩ := readVarint_ok.mp hlength
  dsimp only at h
  cases hread : (JsonLoads.asciiText (stream.take headerLength)).bind JsonLoads.loads with
  | none =>
      rw [hread] at h
      exact absurd h fail_ne_ok
  | some header =>
      rw [hread] at h
      obtain ⟨t, -, hloads⟩ := Option.bind_eq_some_iff.mp hread
      obtain ⟨_, hcanonical, h⟩ := bind_ok.mp h
      obtain ⟨⟨count, base⟩, hheader, h⟩ := bind_ok.mp h
      obtain ⟨⟨scan, rest⟩, hscan, h⟩ := bind_ok.mp h
      obtain ⟨_, hrest, hfinish⟩ := bind_ok.mp h
      have hcanonical := not_not.mp (raiseIf_ok.mp hcanonical)
      obtain rfl : rest = [] := not_not.mp (raiseIf_ok.mp hrest)
      obtain ⟨hpos, hfits, spelled, hspelled, htext⟩ := checkHeader_ok hloads hheader
      obtain ⟨rungs, hcount, hreadable, hlist, entries, hentries, hdrop⟩ := scanRungs_ok.mp hscan
      rw [List.append_nil] at hdrop
      cases rungs with
      | nil => exact absurd hcount hpos.ne
      | cons first rungs =>
          obtain ⟨hbase, hchecked, hchain, hobserve⟩ := (scanList_ok hp (by omega)).mp hlist
          obtain ⟨hfirst, hlast, hleft, hright, hindex, hsha, hrecords, -⟩ :=
            finishRange_ok.mp hfinish
          rw [← hobserve, observeFrom_first] at hfirst
          rw [← hobserve, observeFrom_last] at hlast
          obtain rfl : first = result.first := Option.some.inj hfirst
          have hlast : (result.first :: rungs).getLast? = some result.last := by
            rw [← hlast, List.getLast?_cons]
            rfl
          -- entries are left after the header, so the header was read whole
          have hlong : headerLength < stream.length := by
            by_contra hshort
            rw [List.drop_eq_nil_of_le (not_lt.mp hshort)] at hdrop
            obtain ⟨entry, hentry, hmore⟩ := bind_ok.mp hentries
            obtain ⟨more, -, hmore⟩ := bind_ok.mp hmore
            obtain ⟨_, -, _, -, rfl⟩ := encodeRung_ok.mp hentry
            rw [← pure_ok.mp hmore] at hdrop
            exact absurd hdrop (by simp)
          have hlen : (stream.take headerLength).length = headerLength := by
            rw [List.length_take]
            omega
          have hfile : file = MAGIC ++ (Varint.encode headerLength
              ++ (stream.take headerLength ++ stream.drop headerLength)) := by
            rw [List.take_append_drop, ← hstream]
            conv_lhs => rw [← List.take_append_drop MAGIC.length file, hmagic]
          have hnat : result.first.number.toNat = base := by
            rw [hbase, Int.toNat_natCast]
          refine ⟨_, spelled, ⟨hindex, hsha, rfl, hlast, hrecords.trans hcount.symm⟩,
            ⟨hchecked, hchain, ?_, ?_⟩, ⟨hbase ▸ hreadable, by omega, hnat ▸ hcount ▸ hfits, hspelled,
              hash, entries, hhash, hbase ▸ hentries, ?_, ?_⟩, ?_⟩
          · intro rung hrung
            exact Option.some.inj hrung ▸ hleft
          · intro rung hrung
            exact Option.some.inj (hlast.symm.trans hrung) ▸ hright
          · rw [hnat, hcount, ← htext]
            have := congrArg List.length hcanonical
            rw [hlen, List.length_append, List.length_singleton] at this
            omega
          · rw [hnat, hcount, rangeBytes, ← htext, ← hcanonical, hlen, ← hdrop, hfile,
              List.append_assoc, List.append_assoc]
          · rw [hbase, hobserve, hcount]
            exact hfinish

/-- **What `verify_range_file` establishes.** -/
theorem verifyRangeFile_ok {s : Surroundings} {p : CampaignParameters} {index : Nat}
    {previous : Text} {file : Bytes} {result : VerifiedRange}
    (h : verifyRangeFile s p index previous file = .ok result) :
    ∃ rungs spelled, result.Describes index file rungs ∧ IsLadder s p index rungs
      ∧ HoldsRange s p index previous file result.first.number rungs spelled
      ∧ result.coveredThrough = result.last.number + p.maximumGap := by
  obtain ⟨rungs, spelled, hdescribes, hladder, hholds, hfinish⟩ := verifyRangeFile_scanned h
  refine ⟨rungs, spelled, hdescribes, hladder, hholds, ?_⟩
  obtain ⟨hash, _, hhash, -⟩ := hholds.bytes
  obtain ⟨-, -, -, -, -, -, -, hcovered, -⟩ := finishRange_ok.mp hfinish
  cases rungs with
  | nil => exact absurd hdescribes.first_eq (by simp)
  | cons first rest =>
      obtain rfl : first = result.first := Option.some.inj hdescribes.first_eq
      rw [hcovered]
      exact observeFirst_covered (valid_of_parametersSha256 hhash) hholds.first_nonneg
        hladder.spaced hdescribes.last_eq

/-! ## What the writer writes -/

theorem encodeRungsFrom_ok {last : Int} {rungs : List Rung} {body : Bytes} :
    encodeRungsFrom last rungs = .ok body ↔
      (last :: rungs.map Rung.number).IsChain (· < ·) ∧ entriesFrom last rungs = .ok body := by
  induction rungs generalizing last body with
  | nil => simp [encodeRungsFrom, entriesFrom]
  | cons rung rungs ih =>
      rw [List.map_cons, List.isChain_cons_cons]
      simp only [encodeRungsFrom, entriesFrom, bind_ok, raiseIf_ok, not_le, ih]
      constructor
      · rintro ⟨_, hup, entry, hentry, body, ⟨hchain, hbody⟩, h⟩
        exact ⟨⟨hup, hchain⟩, entry, hentry, body, hbody, h⟩
      · rintro ⟨⟨hup, hchain⟩, entry, hentry, body, hbody, h⟩
        exact ⟨(), hup, entry, hentry, body, ⟨hchain, hbody⟩, h⟩

/-- **What `write_range_file` does**: a file of the entries, if every number can be printed. -/
theorem writeRangeFile_ok {s : Surroundings} {p : CampaignParameters} {index : Nat}
    {previous : Text} {first : Rung} {rungs : List Rung} {file : Bytes}
    (hfirst : 0 ≤ first.number) :
    writeRangeFile s.isPrime p index previous (first :: rungs) = .ok file ↔
      index < p.rangeCount ∧ IsDigest previous
        ∧ ((first :: rungs).map Rung.number).IsChain (· < ·)
        ∧ HeaderFits p index first.number.toNat (rungs.length + 1)
        ∧ ∃ hash entries, parametersSha256 s.isPrime p = .ok hash
          ∧ entriesFrom first.number (first :: rungs) = .ok entries
          ∧ (JsonLoads.dumpsAscii s.floats (headerValue p hash previous index first.number.toNat
              (rungs.length + 1) (.int index))).length + 1 ≤ MAX_HEADER_BYTES
          ∧ rangeBytes s.floats (headerValue p hash previous index first.number.toNat
              (rungs.length + 1) (.int index)) entries = file := by
  have hbase : Json.printInt first.number = Json.printNat first.number.toNat := by
    obtain ⟨n, hn⟩ := Int.eq_ofNat_of_zero_le hfirst
    rw [hn]
    rfl
  have hself : ∀ hash, rangeHeader Json.object .str .int p hash previous (Json.printInt first.number)
      (Json.printInt (index * p.rangeWidth)) (Json.printInt ((index + 1) * p.rangeWidth))
      (.int index) (first :: rungs).length
        = headerJson p hash previous index first.number.toNat (rungs.length + 1) := by
    intro hash
    rw [hbase]
    rfl
  unfold writeRangeFile
  constructor
  · intro h
    obtain ⟨_, -, h⟩ := bind_ok.mp h
    obtain ⟨_, hindex, h⟩ := bind_ok.mp h
    obtain ⟨digest, hdigest, h⟩ := bind_ok.mp h
    obtain ⟨entry, hentry, h⟩ := bind_ok.mp h
    obtain ⟨entries, hentries, h⟩ := bind_ok.mp h
    simp only [bind_ok, decimalText_ok, raiseIf_ok, pure_ok] at h
    obtain ⟨_, ⟨hbaseFits, rfl⟩, _, ⟨hleft, rfl⟩, hash, hhash, _, ⟨hright, rfl⟩, headerBytes, hheader, _,
      hsize, hfile⟩ := h
    obtain ⟨hprevious, hisDigest⟩ := hexDigest_ok.mp hdigest
    obtain rfl := Option.some.inj hprevious
    rw [hself, canonicalJsonBytes_header s.floats] at hheader
    obtain ⟨⟨hindexFits, hcountFits⟩, rfl⟩ := hheader
    obtain ⟨hchain, hbody⟩ := encodeRungsFrom_ok.mp hentries
    have hrange := not_not.mp (raiseIf_ok.mp hindex)
    refine ⟨hrange.2, hisDigest, hchain, ⟨by omega, hleft, hright, hcountFits⟩, hash, entry ++ entries,
      hhash, bind_ok.mpr ⟨entry, hentry, bind_ok.mpr ⟨entries, hbody, rfl⟩⟩, ?_, hfile⟩
    rw [List.length_append, List.length_singleton] at hsize
    omega
  · rintro ⟨hindex, hprevious, hchain, hfits, hash, body, hhash, hbody, hsize, hfile⟩
    obtain ⟨entry, hentry, hbody⟩ := bind_ok.mp hbody
    obtain ⟨entries, hentries, hbody⟩ := bind_ok.mp hbody
    obtain rfl := pure_ok.mp hbody
    obtain ⟨json, hjson, -⟩ := bind_ok.mp hhash
    obtain ⟨_, hvalidate, -⟩ := bind_ok.mp hjson
    have hwidth := (valid_of_validate hvalidate).width
    have hindexFits := hfits.index_fits hwidth
    refine bind_ok.mpr ⟨(), hvalidate, bind_ok.mpr ⟨(), raiseIf_ok.mpr (not_not.mpr
      ⟨by omega, hindex⟩), bind_ok.mpr ⟨previous, hexDigest_ok.mpr ⟨rfl, hprevious⟩, ?_⟩⟩⟩
    refine bind_ok.mpr ⟨entry, hentry, bind_ok.mpr ⟨entries, encodeRungsFrom_ok.mpr
      ⟨hchain, hentries⟩, ?_⟩⟩
    simp only [bind_ok, decimalText_ok, raiseIf_ok, pure_ok]
    have hbaseFits : first.number.natAbs < 10 ^ Py.maxStrDigits := by
      have := hfits.base_fits
      omega
    refine ⟨_, ⟨hbaseFits, rfl⟩, _, ⟨hfits.left_fits, rfl⟩, hash, hhash, _, ⟨hfits.right_fits, rfl⟩, _,
      ?_, (), ?_, hfile⟩
    · rw [hself, canonicalJsonBytes_header s.floats]
      exact ⟨⟨hindexFits, hfits.count_fits⟩, rfl⟩
    · rw [List.length_append, List.length_singleton]
      omega

/--
**An accepted range file is a written one.** It holds checked rungs under the header of its
range. Only the index may be spelled in another way, by a Boolean or a float equal to it; with
an integer there, the file is the one the writer makes of its rungs.
-/
theorem verifyRangeFile_canonical {s : Surroundings} {p : CampaignParameters} {index : Nat}
    {previous : Text} {file : Bytes} {result : VerifiedRange}
    (h : verifyRangeFile s p index previous file = .ok result) (hindex : index < p.rangeCount)
    (hprevious : IsDigest previous) :
    ∃ rungs spelled, result.Describes index file rungs ∧ IsLadder s p index rungs
      ∧ HoldsRange s p index previous file result.first.number rungs spelled
      ∧ ∀ n, spelled = .int n → writeRangeFile s.isPrime p index previous rungs = .ok file := by
  obtain ⟨rungs, spelled, hdescribes, hladder, hholds, -⟩ := verifyRangeFile_ok h
  refine ⟨rungs, spelled, hdescribes, hladder, hholds, ?_⟩
  rintro n rfl
  obtain rfl : (index : Int) = n := of_decide_eq_true hholds.index_equal
  obtain ⟨hash, entries, hhash, hentries, hsize, hfile⟩ := hholds.bytes
  cases rungs with
  | nil => exact absurd hdescribes.first_eq (by simp)
  | cons first rungs =>
      obtain rfl : first = result.first := Option.some.inj hdescribes.first_eq
      refine (writeRangeFile_ok hholds.first_nonneg).mpr ⟨hindex, hprevious, ?_, hholds.fits, hash,
        entries, hhash, hentries, hsize, hfile.symm⟩
      exact hladder.spaced.imp fun _ _ hstep => hstep.1

/-! ## Written files are accepted -/

/-- The checks look only at what an entry keeps. -/
theorem checkRung_stored (s : Surroundings) (rung : Rung) (exponent : Int) :
    checkRung s rung.stored exponent = checkRung s rung exponent := by
  obtain ⟨number, kind, witness, digest⟩ := rung
  cases kind <;> rfl

theorem stored_stored (rung : Rung) : rung.stored.stored = rung.stored := by
  obtain ⟨number, kind, witness, digest⟩ := rung
  cases kind <;> rfl

theorem stored_number (rung : Rung) : rung.stored.number = rung.number := by
  obtain ⟨number, kind, witness, digest⟩ := rung
  cases kind <;> rfl

/-- The witness of a checked Proth rung is one of a few small primes. -/
theorem witness_of_checkRung {s : Surroundings} {rung : Rung} {exponent : Int}
    (h : checkRung s rung exponent = .ok ())
    (hkind : rung.certificateKind = .proth52 ∨ rung.certificateKind = .proth) :
    ∀ witness ∈ rung.witness, witness < varintBound := by
  have hsmall : ∀ witness ∈ SOURCE_PROTH_WITNESSES, witness < 30 := by decide
  have hbound : (30 : Int) < varintBound := by norm_num [varintBound]
  have hproth : ∀ {applies : Prop} [Decidable applies] {e : Int} {message : String},
      checkProthRung rung applies e message = .ok () →
        ∀ witness ∈ rung.witness, witness < varintBound := by
    intro applies _ e message h witness hwitness
    unfold checkProthRung at h
    rw [Option.mem_def.mp hwitness] at h
    dsimp only at h
    split at h
    · obtain ⟨accepted, haccepted, h⟩ := bind_ok.mp h
      rw [raiseIf_ok, Bool.not_eq_false] at h
      have hmem := (checkProth_ok.mp (h ▸ haccepted)).2.1
      exact (hsmall witness hmem).trans hbound
    · exact absurd h fail_ne_ok
  unfold checkRung at h
  rcases hkind with hkind | hkind
  · rw [hkind] at h
    exact hproth h
  · rw [hkind] at h
    exact hproth h

/-- Checked rungs with short steps are read back as they are stored. -/
theorem readableFrom_stored {s : Surroundings} {p : CampaignParameters}
    (hgap : p.maximumGap < varintBound) {rungs : List Rung} {last : Int}
    (hchecked : ∀ rung ∈ rungs, checkRung s rung p.prothExponent = .ok ())
    (hchain : (last :: rungs.map Rung.number).IsChain (Spaced p)) :
    ReadableFrom last (rungs.map Rung.stored) := by
  induction rungs generalizing last with
  | nil => trivial
  | cons rung rungs ih =>
      rw [List.map_cons, List.isChain_cons_cons] at hchain
      obtain ⟨⟨hup, hstep⟩, hchain⟩ := hchain
      obtain ⟨hcheck, hchecked⟩ := List.forall_mem_cons.mp hchecked
      refine ⟨⟨stored_stored rung, ?_, ?_⟩, by rw [stored_number]; exact ih hchecked hchain⟩
      · rw [stored_number]
        omega
      · exact witness_of_checkRung ((checkRung_stored s rung _).trans hcheck)

theorem map_number_stored (rungs : List Rung) :
    (rungs.map Rung.stored).map Rung.number = rungs.map Rung.number := by
  rw [List.map_map]
  exact List.map_congr_left fun rung _ => stored_number rung

theorem entriesFrom_stored (last : Int) (rungs : List Rung) :
    entriesFrom last (rungs.map Rung.stored) = entriesFrom last rungs := by
  induction rungs generalizing last with
  | nil => rfl
  | cons rung rungs ih => rw [List.map_cons, entriesFrom, entriesFrom, encodeRung_stored,
      stored_number, ih]

/-- The rungs of a ladder, as they are stored, pass the loop. -/
theorem scanRungs_stored {s : Surroundings} {p : CampaignParameters} (hp : p.Valid s.isPrime)
    (hgap : p.maximumGap < varintBound) {index : Nat} {first : Rung} {rest : List Rung}
    (hladder : IsLadder s p index (first :: rest)) (hfirst : 0 ≤ first.number) {entries : Bytes}
    (hentries : entriesFrom first.number (first :: rest) = .ok entries) :
    scanRungs s p first.number.toNat (rest.length + 1) 0 { previous := first.number.toNat } entries
      = .ok (observeFrom p 0 { previous := first.number.toNat } ((first :: rest).map Rung.stored),
        []) := by
  have hbase : (first.number.toNat : Int) = first.number := Int.toNat_of_nonneg hfirst
  rw [hbase]
  have hchecked : ∀ rung ∈ (first :: rest).map Rung.stored,
      checkRung s rung p.prothExponent = .ok () := by
    rintro _ hstored
    obtain ⟨rung, hrung, rfl⟩ := List.mem_map.mp hstored
    exact (checkRung_stored s rung _).trans (hladder.checked rung hrung)
  refine scanRungs_ok.mpr ⟨(first :: rest).map Rung.stored, by simp, ?_, ?_, entries, ?_,
    (List.append_nil _).symm⟩
  · refine ⟨⟨stored_stored first, ?_, ?_⟩, ?_⟩
    · rw [stored_number, sub_self]
      norm_num [varintBound]
    · exact witness_of_checkRung (hchecked _ (by simp))
    · rw [stored_number]
      exact readableFrom_stored hgap
        (fun rung hrung => hladder.checked rung (List.mem_cons_of_mem _ hrung)) hladder.spaced
  · refine (scanList_ok hp hfirst).mpr ⟨stored_number first, hchecked, ?_, rfl⟩
    have hnumbers := map_number_stored (first :: rest)
    rw [List.map_cons] at hnumbers
    rw [hnumbers]
    exact hladder.spaced
  · rw [entriesFrom_stored]
    exact hentries

theorem take_rangeBytes (floats : Floats) (header : Value) (entries : Bytes) :
    (rangeBytes floats header entries).take MAGIC.length = MAGIC := by
  rw [rangeBytes, List.append_assoc, List.append_assoc, List.take_left]

theorem drop_rangeBytes (floats : Floats) (header : Value) (entries : Bytes) :
    (rangeBytes floats header entries).drop MAGIC.length
      = Varint.encode (JsonLoads.dumpsAscii floats header ++ [0x0A]).length
        ++ (JsonLoads.dumpsAscii floats header ++ [0x0A] ++ entries) := by
  rw [rangeBytes, List.append_assoc, List.append_assoc, List.drop_left]

/--
**A written range file is accepted.** If the rungs pass the checks of their range, the verifier
takes the file that the writer makes of them, and finds the rungs in it, each with what an entry
keeps. The steps must fit a varint of 32 bytes, and the first rung must not be negative.
-/
theorem verifyRangeFile_written {s : Surroundings} {p : CampaignParameters} {index : Nat}
    {previous : Text} {rungs : List Rung} {file : Bytes}
    (h : writeRangeFile s.isPrime p index previous rungs = .ok file)
    (hladder : IsLadder s p index rungs) (hfirst : ∀ rung ∈ rungs.head?, 0 ≤ rung.number)
    (hgap : p.maximumGap < varintBound) :
    ∃ result, verifyRangeFile s p index previous file = .ok result
      ∧ result.Describes index file (rungs.map Rung.stored) := by
  cases rungs with
  | nil =>
      obtain ⟨_, -, h⟩ := bind_ok.mp h
      obtain ⟨_, -, h⟩ := bind_ok.mp h
      obtain ⟨_, -, h⟩ := bind_ok.mp h
      exact absurd h fail_ne_ok
  | cons first rest =>
      have hfirst := hfirst first rfl
      obtain ⟨-, hprevious, -, hfits, hash, entries, hhash, hentries, hsize, hfile⟩ :=
        (writeRangeFile_ok hfirst).mp h
      have hp := valid_of_parametersSha256 hhash
      have hdigest := isDigest_parametersSha256 hhash
      set header := headerValue p hash previous index first.number.toNat (rest.length + 1) (.int index)
        with hheader
      have hread : (JsonLoads.asciiText (JsonLoads.dumpsAscii s.floats header ++ [0x0A])).bind
          JsonLoads.loads = some header :=
        @read_header s.floats p hp.width _ _ _ _ _ _ hdigest hprevious
          ((canonicalJsonBytes_header s.floats).mpr
            ⟨⟨hfits.index_fits hp.width, hfits.count_fits⟩, rfl⟩)
      have hcheck : checkHeader s.floats p hash index previous header
          = .ok (rest.length + 1, first.number.toNat) :=
        checkHeader_written hp.width (Nat.succ_pos rest.length) hfits
      have hscan := scanRungs_stored hp hgap hladder hfirst hentries
      set scan := observeFrom p 0 { previous := first.number.toNat } ((first :: rest).map Rung.stored)
        with hscanned
      obtain ⟨last, hlast⟩ : ∃ last, (first :: rest).getLast? = some last :=
        ⟨_, List.getLast?_eq_some_getLast (List.cons_ne_nil first rest)⟩
      have hstoredFirst : ((first :: rest).map Rung.stored).head? = some first.stored := by
        rw [List.map_cons, List.head?_cons]
      have hstoredLast : ((first :: rest).map Rung.stored).getLast? = some last.stored := by
        rw [List.getLast?_map, hlast]
        rfl
      have hscanFirst : scan.first = some first.stored := by
        rw [hscanned, observeFrom_first, hstoredFirst]
        rfl
      have hscanLast : scan.last = some last.stored := by
        rw [hscanned, observeFrom_last, hstoredLast]
        rfl
      have hlength : (JsonLoads.dumpsAscii s.floats header ++ [0x0A]).length ≤ MAX_HEADER_BYTES := by
        rw [List.length_append, List.length_singleton]
        exact hsize
      obtain ⟨result, hfinish⟩ : ∃ result, finishRange p index (rest.length + 1) file scan
          = .ok result := by
        have hleft := hladder.left first rfl
        have hright := hladder.right last hlast
        rw [← stored_number] at hleft hright
        unfold finishRange
        rw [hscanFirst, hscanLast]
        exact ⟨_, bind_ok.mpr ⟨(), raiseIf_ok.mpr (not_lt.mpr hleft), bind_ok.mpr ⟨(),
          raiseIf_ok.mpr (not_lt.mpr hright), rfl⟩⟩⟩
      obtain ⟨hresultFirst, hresultLast, -, -, hresultIndex, hsha, hcount, -⟩ :=
        finishRange_ok.mp hfinish
      refine ⟨result, ?_, ⟨hresultIndex, hsha, ?_, ?_, by rw [hcount, List.length_map]; rfl⟩⟩
      rotate_left
      · rw [hstoredFirst, ← hscanFirst, hresultFirst]
      · rw [hstoredLast, ← hscanLast, hresultLast]
      unfold verifyRangeFile
      refine bind_ok.mpr ⟨hash, hhash, bind_ok.mpr ⟨(), raiseIf_ok.mpr (not_not.mpr ?_), ?_⟩⟩
      · rw [← hfile]
        exact take_rangeBytes _ _ _
      refine bind_ok.mpr ⟨((JsonLoads.dumpsAscii s.floats header ++ [0x0A]).length,
        (JsonLoads.dumpsAscii s.floats header ++ [0x0A]) ++ entries), readVarint_ok.mpr ⟨?_, ?_⟩, ?_⟩
      · rw [← hfile]
        exact drop_rangeBytes _ _ _
      · exact lt_of_le_of_lt hlength (by norm_num [MAX_HEADER_BYTES, varintBound])
      refine bind_ok.mpr ⟨(), raiseIf_ok.mpr (not_lt.mpr hlength), ?_⟩
      dsimp only
      rw [List.take_left, List.drop_left, hread]
      refine bind_ok.mpr ⟨(), raiseIf_ok.mpr (not_not.mpr rfl), bind_ok.mpr ⟨_, hcheck, ?_⟩⟩
      refine bind_ok.mpr ⟨(scan, []), hscan, bind_ok.mpr ⟨(), raiseIf_ok.mpr (not_not.mpr rfl), ?_⟩⟩
      exact hfinish

/-! ## Range files are canonical -/

/--
**Range files are canonical.** An accepted file is the file that the writer makes of the rungs
in it, unless its index is spelled by a Boolean or a float; and the file that the writer makes
of the rungs of a ladder is accepted, with the same rungs.
-/
theorem rangeFile_canonical {s : Surroundings} {p : CampaignParameters} {index : Nat}
    {previous : Text} {file : Bytes} (hindex : index < p.rangeCount) (hprevious : IsDigest previous) :
    (∀ result, verifyRangeFile s p index previous file = .ok result →
      ∃ rungs spelled, result.Describes index file rungs ∧ IsLadder s p index rungs
        ∧ HoldsRange s p index previous file result.first.number rungs spelled
        ∧ ∀ n, spelled = .int n → writeRangeFile s.isPrime p index previous rungs = .ok file)
    ∧ ∀ rungs, writeRangeFile s.isPrime p index previous rungs = .ok file → IsLadder s p index rungs →
      (∀ rung ∈ rungs.head?, 0 ≤ rung.number) → p.maximumGap < varintBound →
        ∃ result, verifyRangeFile s p index previous file = .ok result
          ∧ result.Describes index file (rungs.map Rung.stored) :=
  ⟨fun _ h => verifyRangeFile_canonical h hindex hprevious,
    fun _ h hladder hfirst hgap => verifyRangeFile_written h hladder hfirst hgap⟩

/-! ## A small campaign -/

/-- One range from 3 to 7, with a gap bound of 8. -/
def smallParameters : CampaignParameters where
  rangeWidth := 4
  rangeCount := 1
  maximumGap := 8
  endpointTolerance := 4
  binaryLastEven := 8
  prothExponent := 1
  mode := .boundedTest

def smallSurroundings : Surroundings where
  isPrime n := decide (0 ≤ n ∧ n.toNat.Prime)
  floats := ⟨id, fun _ _ => false⟩
  artifacts _ := none
  external := none

def smallRungs : List Rung := [⟨3, .direct64, none, none⟩, ⟨7, .direct64, none, none⟩]

theorem isDigest_zeroHash : IsDigest ZERO_HASH :=
  isDigest_iff.mpr ⟨rfl, fun c hc => .inl (by rw [List.eq_of_mem_replicate hc]; decide)⟩

theorem small_validates : smallParameters.validate smallSurroundings.isPrime = .ok () := by
  decide +kernel

theorem small_fits {n : Nat} (h : n < 10 ^ 10) : n < 10 ^ Py.maxStrDigits :=
  h.trans_le (Nat.pow_le_pow_right (by decide) (by decide))

theorem small_decimal {n : Int} (h : n.natAbs < 10 ^ 10) :
    decimalText n = .ok (Json.printInt n) :=
  decimalText_ok.mpr ⟨small_fits h, rfl⟩

theorem small_parametersSha256 :
    ∃ hash, parametersSha256 smallSurroundings.isPrime smallParameters = .ok hash := by
  obtain ⟨json, hjson, hfits⟩ : ∃ json,
      smallParameters.toJson smallSurroundings.isPrime = .ok json ∧ Json.fits json = true := by
    refine ⟨_, bind_ok.mpr ⟨(), small_validates, bind_ok.mpr ⟨_, small_decimal (by decide),
      bind_ok.mpr ⟨_, small_decimal (by decide), bind_ok.mpr ⟨_, small_decimal (by decide),
      bind_ok.mpr ⟨_, small_decimal (by decide), bind_ok.mpr ⟨_, small_decimal (by decide),
      bind_ok.mpr ⟨_, small_decimal (by decide), bind_ok.mpr ⟨_, small_decimal (by decide),
      rfl⟩⟩⟩⟩⟩⟩⟩⟩, ?_⟩
    rw [Json.fits_object]
    simp only [List.forall_mem_cons, Json.fits, decide_eq_true_eq]
    exact ⟨trivial, trivial, trivial, trivial, trivial, trivial, small_fits (by decide),
      small_fits (by decide), trivial, trivial, fun _ h => absurd h (by simp)⟩
  obtain ⟨bytes, hbytes⟩ : ∃ bytes, canonicalJsonBytes json = .ok bytes := by
    unfold canonicalJsonBytes Json.asciiBytes
    rw [hfits]
    exact ⟨_, rfl⟩
  exact ⟨_, bind_ok.mpr ⟨json, hjson, bind_ok.mpr ⟨bytes, hbytes, rfl⟩⟩⟩

theorem small_isLadder : IsLadder smallSurroundings smallParameters 0 smallRungs := by
  refine ⟨fun rung hrung => ?_, ?_, ?_, ?_⟩
  · revert rung
    decide +kernel
  · simp [smallRungs, Spaced, smallParameters]
  · intro rung hrung
    obtain rfl := Option.some.inj hrung
    decide
  · intro rung hrung
    obtain rfl := Option.some.inj hrung
    decide

theorem small_headerFits : HeaderFits smallParameters 0 3 2 :=
  ⟨small_fits (by decide), small_fits (by decide), small_fits (by decide), small_fits (by decide)⟩

theorem small_writes : ∃ file,
    writeRangeFile smallSurroundings.isPrime smallParameters 0 ZERO_HASH smallRungs = .ok file := by
  obtain ⟨hash, hhash⟩ := small_parametersSha256
  have hentries : entriesFrom 3 smallRungs = .ok [0, 0, 0, 4] := by decide +kernel
  have hheader := length_header (p := smallParameters) (by decide) smallSurroundings.floats
    (isDigest_parametersSha256 hhash) isDigest_zeroHash isDigest_zeroHash small_headerFits
  have hshort : (Json.print (headerJson smallParameters ZERO_HASH ZERO_HASH 0 3 2)).length + 1
      ≤ MAX_HEADER_BYTES := by decide +kernel
  rw [← hheader] at hshort
  have hfirst : (0 : Int) ≤ (⟨3, .direct64, none, none⟩ : Rung).number := by decide
  refine ⟨_, (@writeRangeFile_ok smallSurroundings smallParameters 0 ZERO_HASH _ _ _ hfirst).mpr
    ⟨by decide, isDigest_zeroHash, ?_, small_headerFits, hash, _, hhash, hentries, hshort, rfl⟩⟩
  simp

/-- The file of the small campaign is accepted, and so it is the written one. -/
theorem rangeFile_canonical_small : ∃ file result rungs,
    verifyRangeFile smallSurroundings smallParameters 0 ZERO_HASH file = .ok result
      ∧ result.Describes 0 file rungs ∧ IsLadder smallSurroundings smallParameters 0 rungs := by
  obtain ⟨file, hfile⟩ := small_writes
  have hcanonical := @rangeFile_canonical smallSurroundings smallParameters 0 ZERO_HASH file
    (by decide) isDigest_zeroHash
  obtain ⟨result, hresult, -⟩ := hcanonical.2 smallRungs hfile small_isLadder
    (fun rung hrung => by
      obtain rfl := Option.some.inj hrung
      decide) (by decide +kernel)
  obtain ⟨rungs, _, hdescribes, hladder, -⟩ := hcanonical.1 result hresult
  exact ⟨file, result, rungs, hresult, hdescribes, hladder⟩

end AttestedCompute.PrimeLadder
