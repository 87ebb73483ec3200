import AttestedCompute.PrimeLadder.RangeEntries
import AttestedCompute.Lib.JsonCanonical

/-!
# Headers of range files

The header is a JSON object with a fixed set of keys. What passes the checks of the verifier
is the header of its range, up to the spelling of the index; what the writer writes is read
back and passes them.
-/

namespace AttestedCompute.PrimeLadder

open Fallible (bind_ok pure_ok)
open JsonLoads (Value Floats PlainText)

/-! ## Decimal fields -/

theorem decimal_ok {value : Value} {name : String} {n : Nat} :
    decimal value name = .ok n ↔ value = .str (Json.printNat n) ∧ n < 10 ^ Py.maxStrDigits := by
  cases value with
  | str digits =>
      unfold decimal
      dsimp only
      split_ifs with hbad hlong
      · refine ⟨fun h => absurd h fail_ne_ok, ?_⟩
        rintro ⟨h, -⟩
        obtain rfl := Value.str.inj h
        refine absurd hbad ?_
        rw [not_or, not_or, not_and_or]
        refine ⟨Json.printNat_ne_nil n, ?_, ?_⟩
        · rw [Bool.not_eq_false, List.all_eq_true]
          exact fun c hc => Json.isDigit_printNat c hc
        · rcases Nat.eq_zero_or_pos n with rfl | hpos
          · exact .inl (by decide)
          · refine .inr fun hhead => JsonLoads.head_toDigits hpos ?_
            rw [Json.printNat, List.head?_map, Option.map_eq_some_iff] at hhead
            obtain ⟨c, hc, hzero⟩ := hhead
            have hsame : Text.ofChar c = Text.ofChar '0' := hzero
            rw [hc, Text.ofChar_injective hsame]
      · refine ⟨fun h => absurd h (by simp), ?_⟩
        rintro ⟨h, hn⟩
        obtain rfl := Value.str.inj h
        exact absurd (JsonLoads.length_printNat_iff.mpr hn) (not_le.mpr hlong)
      · rw [not_or, not_or, not_and_or, Bool.not_eq_false, List.all_eq_true] at hbad
        have hprint := (JsonLoads.printNat_digitsValue hbad.1 hbad.2.1
          fun hlen => hbad.2.2.resolve_left (not_not.mpr hlen)).1
        constructor
        · intro h
          obtain rfl := Except.ok.inj h
          refine ⟨by rw [hprint], JsonLoads.length_printNat_iff.mp ?_⟩
          rw [hprint]
          exact not_lt.mp hlong
        · rintro ⟨h, -⟩
          rw [Value.str.inj h, JsonLoads.digitsValue_printNat]
  | _ => simp [decimal]

/-! ## Parameters -/

/-- What the verifier and the coverage argument use of valid parameters. -/
structure CampaignParameters.Valid (isPrime : Int → Bool) (p : CampaignParameters) : Prop where
  width : 0 < p.rangeWidth
  count : 0 < p.rangeCount
  gap : 0 < p.maximumGap
  tolerance : p.endpointTolerance * 2 = p.maximumGap
  firstEven : p.binaryFirstEven = 4
  lastEven : p.binaryLastEven = p.maximumGap
  seed : isPrime p.seedPrime = true
  seedOdd : p.seedPrime % 2 = 1

theorem valid_of_validate {isPrime : Int → Bool} {p : CampaignParameters} {u : Unit}
    (h : p.validate isPrime = .ok u) : p.Valid isPrime := by
  unfold CampaignParameters.validate at h
  simp only [bind_ok, raiseIf_ok] at h
  obtain ⟨_, hpos, _, htolerance, _, hfirst, _, hlast, _, hseed, -⟩ := h
  simp only [not_exists, not_and, not_le] at hpos
  rw [not_or, not_not] at hfirst
  rw [not_or, Bool.not_eq_false] at hseed
  exact
    { width := hpos p.rangeWidth (by simp)
      count := hpos p.rangeCount (by simp)
      gap := hpos p.maximumGap (by simp)
      tolerance := not_not.mp htolerance
      firstEven := hfirst.1
      lastEven := not_not.mp hlast
      seed := hseed.1
      seedOdd := by omega }

theorem valid_of_parametersSha256 {isPrime : Int → Bool} {p : CampaignParameters} {hash : Text}
    (h : parametersSha256 isPrime p = .ok hash) : p.Valid isPrime := by
  obtain ⟨json, hjson, -⟩ := bind_ok.mp h
  obtain ⟨_, hvalidate, -⟩ := bind_ok.mp hjson
  exact valid_of_validate hvalidate

theorem isDigest_sha256Hex (bytes : Bytes) : IsDigest (sha256Hex bytes) :=
  ⟨Sha256.digest bytes, Sha256.length_digest bytes, rfl⟩

theorem isDigest_parametersSha256 {isPrime : Int → Bool} {p : CampaignParameters} {hash : Text}
    (h : parametersSha256 isPrime p = .ok hash) : IsDigest hash := by
  obtain ⟨_, -, hjson⟩ := bind_ok.mp h
  obtain ⟨bytes, -, hsha⟩ := bind_ok.mp hjson
  exact pure_ok.mp hsha ▸ isDigest_sha256Hex bytes

/-! ## A header that passes -/

def valueObject (members : List (String × Value)) : Value :=
  .obj (members.map fun m => (Text.ofString m.1, m.2))

/-- The header of a range, with its index as it is spelled. -/
def headerValue (p : CampaignParameters) (parametersHash previous : Text) (index base count : Nat)
    (spelled : Value) : Value :=
  rangeHeader valueObject .str .int p parametersHash previous (Json.printNat base)
    (Json.printInt (index * p.rangeWidth)) (Json.printInt ((index + 1) * p.rangeWidth)) spelled count

theorem field_of_mem {members : List (Text × Value)} (hmembers : (members.map Prod.fst).Nodup)
    {key : String} {m : Text × Value} (hm : m ∈ members) (hkey : m.1 = Text.ofString key) :
    field members key = m.2 := by
  unfold field
  cases hfind : members.find? fun m => m.1 = Text.ofString key with
  | none => exact absurd (List.find?_eq_none.mp hfind m hm) (by simpa using hkey)
  | some found =>
      have hsame : found.1 = m.1 := by simpa [hkey] using List.find?_some hfind
      exact congrArg Prod.snd
        (List.inj_on_of_nodup_map hmembers (List.mem_of_find?_eq_some hfind) hm hsame)

theorem hasKeys_self (members : List (Text × Value)) :
    hasKeys members (members.map Prod.fst) = true := by
  rw [hasKeys, Bool.and_eq_true, List.all_eq_true, List.all_eq_true]
  refine ⟨fun m hm => decide_eq_true (List.mem_map_of_mem hm), fun key hkey => ?_⟩
  obtain ⟨m, hm, rfl⟩ := List.mem_map.mp hkey
  exact List.any_eq_true.mpr ⟨m, hm, decide_eq_true rfl⟩

/-- An object with different keys is a permutation of its fields. -/
theorem perm_fields {members : List (Text × Value)} (keys : List String)
    (hmembers : (members.map Prod.fst).Nodup) (hkeys : (keys.map Text.ofString).Nodup)
    (hhas : hasKeys members (keys.map Text.ofString) = true) :
    members.Perm (keys.map fun key => (Text.ofString key, field members key)) := by
  have hnodup : (keys.map fun key => (Text.ofString key, field members key)).Nodup := by
    refine List.Nodup.of_map Prod.fst ?_
    rw [List.map_map]
    exact hkeys
  rw [hasKeys, Bool.and_eq_true, List.all_eq_true, List.all_eq_true] at hhas
  refine (List.perm_ext_iff_of_nodup (List.Nodup.of_map _ hmembers) hnodup).mpr fun m => ?_
  rw [List.mem_map]
  constructor
  · intro hm
    obtain ⟨key, hkey, heq⟩ := List.mem_map.mp (of_decide_eq_true (hhas.1 m hm))
    exact ⟨key, hkey, Prod.ext heq (field_of_mem hmembers hm heq.symm)⟩
  · rintro ⟨key, hkey, rfl⟩
    obtain ⟨m, hm, heq⟩ := List.any_eq_true.mp (hhas.2 _ (List.mem_map_of_mem hkey))
    have heq := of_decide_eq_true heq
    rw [field_of_mem hmembers hm heq, ← heq]
    exact hm

theorem equals_str {floats : Floats} {t : Text} {v : Value} :
    JsonLoads.equals floats (.str t) v = true ↔ v = .str t := by
  cases v <;> simp [JsonLoads.equals, eq_comm]

/-- The numbers of a header are short enough to be printed. -/
structure HeaderFits (p : CampaignParameters) (index base count : Nat) : Prop where
  base_fits : base < 10 ^ Py.maxStrDigits
  left_fits : (index * p.rangeWidth).natAbs < 10 ^ Py.maxStrDigits
  right_fits : ((index + 1) * p.rangeWidth).natAbs < 10 ^ Py.maxStrDigits
  count_fits : count < 10 ^ Py.maxStrDigits

/-- With a left end that can be printed, the index can be printed. -/
theorem HeaderFits.index_fits {p : CampaignParameters} {index base count : Nat}
    (h : HeaderFits p index base count) (hwidth : 0 < p.rangeWidth) :
    index < 10 ^ Py.maxStrDigits := by
  refine lt_of_le_of_lt ?_ h.left_fits
  rw [Int.natAbs_mul, Int.natAbs_natCast]
  exact Nat.le_mul_of_pos_right _ (Int.natAbs_pos.mpr hwidth.ne')

/-- **A header that passes is the header of its range**, up to the spelling of the index. -/
theorem checkHeader_ok {floats : Floats} {p : CampaignParameters} {hash previous : Text}
    {index count base : Nat} {t : Text} {header : Value} (hread : JsonLoads.loads t = some header)
    (h : checkHeader floats p hash index previous header = .ok (count, base)) :
    0 < count ∧ HeaderFits p index base count
      ∧ ∃ spelled, JsonLoads.equals floats (.int index) spelled = true
        ∧ JsonLoads.dumpsAscii floats header
          = JsonLoads.dumpsAscii floats (headerValue p hash previous index base count spelled) := by
  cases header with
  | obj members =>
      obtain ⟨hnodup, hshort⟩ := JsonLoads.object_of_loads hread
      unfold checkHeader at h
      simp only [bind_ok, raiseIf_ok, Bool.not_eq_false, not_or, pure_ok, Prod.mk.injEq] at h
      obtain ⟨_, hkeys, _, ⟨hkind, hschema, hatom⟩, _, ⟨hindex, hprevious⟩, _, hhash, left, hleft,
        _, hleftEq, right, hright, _, hrightEq, count', hcount, base', hbase, rfl, rfl⟩ := h
      rw [equals_str] at hkind hschema hatom hprevious hhash
      obtain ⟨hleft, hleftFits⟩ := decimal_ok.mp hleft
      obtain ⟨hright, hrightFits⟩ := decimal_ok.mp hright
      obtain ⟨hbase, hbaseFits⟩ := decimal_ok.mp hbase
      have hleftEq := not_not.mp hleftEq
      have hrightEq := not_not.mp hrightEq
      obtain ⟨hpos, hcount⟩ : 0 < count' ∧ field members "record_count" = .int count' := by
        split at hcount
        · rename_i n hfield
          split at hcount
          · exact absurd hcount fail_ne_ok
          · rw [hfield, ← Except.ok.inj hcount, Int.toNat_of_nonneg (by omega)]
            exact ⟨by omega, rfl⟩
        · exact absurd hcount fail_ne_ok
      have hperm := perm_fields ["atom_id", "base_prime", "index", "kind", "left",
        "parameters_sha256", "previous_range_sha256", "record_count", "right", "schema"]
        hnodup (by decide) hkeys
      have hcountFits : count' < 10 ^ Py.maxStrDigits :=
        hshort (Text.ofString "record_count", field members "record_count")
          (hperm.symm.subset (by simp)) count' hcount
      refine ⟨hpos, ⟨hbaseFits, by rwa [← hleftEq, Int.natAbs_natCast],
        by rwa [← hrightEq, Int.natAbs_natCast], hcountFits⟩, field members "index", hindex, ?_⟩
      rw [JsonLoads.dumpsAscii_perm floats hperm hnodup]
      simp only [List.map_cons, List.map_nil, hatom, hbase, hkind, hleft, hhash, hprevious, hcount,
        hright, hschema]
      rw [headerValue, ← hleftEq, ← hrightEq]
      rfl
  | _ => exact absurd h (by simp [checkHeader])

/-! ## The header that is written -/

theorem decimalText_ok {n : Int} {t : Text} :
    decimalText n = .ok t ↔ n.natAbs < 10 ^ Py.maxStrDigits ∧ Json.printInt n = t := by
  unfold decimalText
  split
  · rename_i h
    exact ⟨fun ht => ⟨h, Except.ok.inj ht⟩, fun ht => congrArg Except.ok ht.2⟩
  · rename_i h
    exact ⟨fun ht => absurd ht (by simp), fun ht => absurd ht.1 h⟩

/-- The header object of the writer. -/
def headerJson (p : CampaignParameters) (parametersHash previous : Text) (index base count : Nat) :
    Json :=
  rangeHeader Json.object .str .int p parametersHash previous (Json.printNat base)
    (Json.printInt (index * p.rangeWidth)) (Json.printInt ((index + 1) * p.rangeWidth)) (.int index)
    count

theorem ofJson_headerJson (p : CampaignParameters) (hash previous : Text) (index base count : Nat) :
    JsonLoads.ofJson (headerJson p hash previous index base count)
      = headerValue p hash previous index base count (.int index) := rfl

theorem fits_headerJson (p : CampaignParameters) (hash previous : Text) (index base count : Nat) :
    Json.fits (headerJson p hash previous index base count) = true ↔
      index < 10 ^ 4300 ∧ count < 10 ^ 4300 := by
  rw [headerJson, rangeHeader, Json.fits_object]
  simp only [List.mem_cons, List.not_mem_nil, or_false, forall_eq_or_imp, forall_eq,
    Int.natAbs_natCast, Json.fits, decide_eq_true_eq, true_and, and_true]

theorem canonicalJsonBytes_header {p : CampaignParameters} {hash previous : Text}
    {index base count : Nat} {bytes : Bytes} (floats : Floats) :
    canonicalJsonBytes (headerJson p hash previous index base count) = .ok bytes ↔
      (index < 10 ^ 4300 ∧ count < 10 ^ 4300)
        ∧ JsonLoads.dumpsAscii floats (headerValue p hash previous index base count (.int index))
          ++ [0x0A] = bytes := by
  rw [← fits_headerJson p hash previous index base count,
    ← ofJson_headerJson, JsonLoads.dumpsAscii_ofJson, canonicalJsonBytes, Json.asciiBytes]
  cases Json.fits (headerJson p hash previous index base count) <;> simp

/-! ## Reading the written header -/

theorem plainText_of_all {t : Text}
    (h : (t.all fun c => Json.isPrintable c && c != 0x22 && c != 0x5C) = true) : PlainText t := by
  intro c hc
  have hc := List.all_eq_true.mp h c hc
  simp only [Bool.and_eq_true, bne_iff_ne] at hc
  exact ⟨hc.1.1, hc.1.2, hc.2⟩

theorem plainText_of_isHex {t : Text} (h : ∀ c ∈ t, Text.IsHex c) : PlainText t := by
  intro c hc
  have hrange := h c hc
  unfold Text.IsHex at hrange
  refine ⟨?_, ?_, ?_⟩
  · simp only [Json.isPrintable, Bool.and_eq_true, decide_eq_true_eq]
    omega
  · rintro rfl
    exact absurd hrange (by decide)
  · rintro rfl
    exact absurd hrange (by decide)

theorem plainText_printInt {n : Int} (h : 0 ≤ n) : PlainText (Json.printInt n) := by
  obtain ⟨n, rfl⟩ := Int.eq_ofNat_of_zero_le h
  refine plainText_of_isHex fun c hc => .inl ?_
  have hdigit := Json.isDigit_printNat c hc
  simpa [Json.isDigit, Fin.le_def] using hdigit

/-- The header of the writer is plain: numbers, digests and words without escapes. -/
theorem plain_headerJson {p : CampaignParameters} (hwidth : 0 < p.rangeWidth)
    {hash previous : Text} {index base count : Nat} (hhash : IsDigest hash)
    (hprevious : IsDigest previous) (hindex : index < 10 ^ 4300) (hcount : count < 10 ^ 4300) :
    JsonLoads.Plain (headerJson p hash previous index base count) := by
  have hatom : PlainText (Text.ofString (campaignAtomId p)) := by
    unfold campaignAtomId
    split
    · exact plainText_of_all (by decide)
    · exact plainText_of_all (by decide)
  have hleft := plainText_printInt (Int.mul_nonneg (Int.natCast_nonneg index) hwidth.le)
  have hright := plainText_printInt
    (Int.mul_nonneg (Int.le_add_one (Int.natCast_nonneg index)) hwidth.le)
  have hhex := fun {t : Text} (h : IsDigest t) => plainText_of_isHex (isDigest_iff.mp h).2
  have hkeys : ∀ key ∈ headerKeys, PlainText key := by
    intro key hkey
    have hplain : (headerKeys.all fun key =>
      key.all fun c => Json.isPrintable c && c != 0x22 && c != 0x5C) = true := by decide
    exact plainText_of_all (List.all_eq_true.mp hplain key hkey)
  simp only [headerKeys, List.map_cons, List.map_nil, List.forall_mem_cons] at hkeys
  obtain ⟨hk₀, hk₁, hk₂, hk₃, hk₄, hk₅, hk₆, hk₇, hk₈, hk₉, -⟩ := hkeys
  have hkind : PlainText (Text.ofString RANGE_KIND) := plainText_of_all (by decide)
  have hschema : PlainText (Text.ofString SCHEMA) := plainText_of_all (by decide)
  refine ⟨⟨hk₀, hatom, hk₁, plainText_printInt (Int.natCast_nonneg base), hk₂, hindex, hk₃, hkind, hk₄,
    hleft, hk₅, hhex hhash, hk₆, hhex hprevious, hk₇, hcount, hk₈, hright, hk₉, hschema, trivial⟩,
    ?_⟩
  have hnodup : headerKeys.Nodup := by decide
  simp only [headerKeys, List.map_cons, List.map_nil] at hnodup ⊢
  exact hnodup

/-- The header of the writer is sorted. -/
theorem sortKeys_headerJson (p : CampaignParameters) (hash previous : Text)
    (index base count : Nat) : Json.sortKeys (headerJson p hash previous index base count)
      = headerJson p hash previous index base count := by
  have hsorted : headerKeys.Pairwise (· ≤ ·) := by decide
  refine congrArg Json.obj (List.Pairwise.insertionSort_eq (List.pairwise_map.mp ?_))
  simp only [headerKeys, List.map_cons, List.map_nil, Json.sortMembers] at hsorted ⊢
  exact hsorted

/-- The header of the writer is read back. -/
theorem read_header {floats : Floats} {p : CampaignParameters} (hwidth : 0 < p.rangeWidth)
    {hash previous : Text} {index base count : Nat} {bytes : Bytes} (hhash : IsDigest hash)
    (hprevious : IsDigest previous)
    (h : canonicalJsonBytes (headerJson p hash previous index base count) = .ok bytes) :
    (JsonLoads.asciiText bytes).bind JsonLoads.loads
      = some (headerValue p hash previous index base count (.int index)) := by
  obtain ⟨⟨hindex, hcount⟩, -⟩ := (canonicalJsonBytes_header floats).mp h
  unfold canonicalJsonBytes at h
  cases hbytes : Json.asciiBytes (headerJson p hash previous index base count) with
  | error fault =>
      rw [hbytes] at h
      exact absurd h (by simp)
  | ok text =>
      rw [hbytes] at h
      obtain rfl := Except.ok.inj h
      rw [← ofJson_headerJson]
      exact JsonLoads.read_canonical (plain_headerJson hwidth hhash hprevious hindex hcount)
        (sortKeys_headerJson _ _ _ _ _ _) hbytes

/-- **The written header passes the checks of its range.** -/
theorem checkHeader_written {floats : Floats} {p : CampaignParameters} (hwidth : 0 < p.rangeWidth)
    {hash previous : Text} {index base count : Nat} (hcount : 0 < count)
    (hfits : HeaderFits p index base count) :
    checkHeader floats p hash index previous
      (headerValue p hash previous index base count (.int index)) = .ok (count, base) := by
  have hleft := Int.mul_nonneg (Int.natCast_nonneg index) hwidth.le
  have hright := Int.mul_nonneg (Int.le_add_one (Int.natCast_nonneg index)) hwidth.le
  obtain ⟨left, hleft⟩ := Int.eq_ofNat_of_zero_le hleft
  obtain ⟨right, hright⟩ := Int.eq_ofNat_of_zero_le hright
  obtain ⟨hbase, hleftFits, hrightFits, -⟩ := hfits
  rw [hleft, Int.natAbs_natCast] at hleftFits
  rw [hright, Int.natAbs_natCast] at hrightFits
  rw [headerValue, rangeHeader, valueObject, checkHeader, hleft, hright]
  set pairs : List (String × Value) := List.cons _ _ with hpairs
  set members := pairs.map fun m => (Text.ofString m.1, m.2) with hmembers
  have hkeys : members.map Prod.fst = headerKeys := by
    simp only [hmembers, hpairs, headerKeys, List.map_cons, List.map_nil]
  have hnodup : (members.map Prod.fst).Nodup := hkeys ▸ (by decide : headerKeys.Nodup)
  have hfields : ∀ m ∈ pairs, field members m.1 = m.2 := fun m hm =>
    field_of_mem hnodup (List.mem_map_of_mem (f := fun m => (Text.ofString m.1, m.2)) hm) rfl
  have hhas := hkeys ▸ hasKeys_self members
  simp only [hpairs, List.forall_mem_cons] at hfields
  obtain ⟨hatom, hbaseField, hindex, hkind, hleftField, hhash, hprevious, hcountField, hrightField,
    hschema, -⟩ := hfields
  simp only [bind_ok, raiseIf_ok, hatom, hbaseField, hindex, hkind, hleftField, hhash, hprevious,
    hcountField, hrightField, hschema, hhas, decimal_ok, pure_ok]
  have hpos : ¬ (count : Int) ≤ 0 := by omega
  refine ⟨(), by simp, (), by simp [equals_str], (), by simp [JsonLoads.equals], (),
    by simp [equals_str], left, ⟨rfl, hleftFits⟩, (), by simp, right, ⟨rfl, hrightFits⟩, (), by simp,
    count, ?_, base, ⟨rfl, hbase⟩, rfl⟩
  rw [if_neg hpos, Int.toNat_natCast]

theorem length_print_header {p : CampaignParameters} {hash hash' previous : Text}
    {index base count : Nat} (h : PlainText hash) (h' : PlainText hash')
    (hlen : hash.length = hash'.length) :
    (Json.print (headerJson p hash previous index base count)).length
      = (Json.print (headerJson p hash' previous index base count)).length := by
  simp only [headerJson, rangeHeader, Json.object, List.map_cons, List.map_nil, Json.print,
    Json.printMembers, Json.printString, h.escape, h'.escape, List.length_append, List.length_cons,
    hlen]

/-- The length of a header does not depend on the digest of the parameters. -/
theorem length_header {p : CampaignParameters} (hwidth : 0 < p.rangeWidth) (floats : Floats)
    {hash hash' previous : Text} {index base count : Nat} (hhash : IsDigest hash)
    (hhash' : IsDigest hash') (hprevious : IsDigest previous) (hfits : HeaderFits p index base count) :
    (JsonLoads.dumpsAscii floats (headerValue p hash previous index base count (.int index))).length
      = (Json.print (headerJson p hash' previous index base count)).length := by
  have hplain : JsonLoads.Plain (headerJson p hash previous index base count) :=
    plain_headerJson hwidth hhash hprevious (hfits.index_fits hwidth) hfits.count_fits
  have hascii : ∀ c ∈ Json.print (headerJson p hash previous index base count), c.val < 128 := by
    intro c hc
    have hprintable := JsonLoads.printable_print _ hplain hc
    simp only [Json.isPrintable, Bool.and_eq_true, decide_eq_true_eq] at hprintable
    omega
  have hbytes : Json.asciiBytes (headerJson p hash previous index base count)
      = .ok (Json.dumpsAscii (headerJson p hash previous index base count)).utf8 := by
    have hall := fits_headerJson p hash previous index base count
    rw [Json.asciiBytes, hall.mpr ⟨hfits.index_fits hwidth, hfits.count_fits⟩]
    rfl
  obtain ⟨hlen, hhex⟩ := isDigest_iff.mp hhash
  obtain ⟨hlen', hhex'⟩ := isDigest_iff.mp hhash'
  rw [← ofJson_headerJson, JsonLoads.dumpsAscii_ofJson,
    JsonLoads.asciiBytes_plain hplain (sortKeys_headerJson _ _ _ _ _ _) hbytes,
    JsonLoads.utf8_ascii hascii, List.length_map]
  exact length_print_header (plainText_of_isHex hhex) (plainText_of_isHex hhex') (hlen.trans hlen'.symm)

end AttestedCompute.PrimeLadder
