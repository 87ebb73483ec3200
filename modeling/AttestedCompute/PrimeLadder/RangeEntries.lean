import AttestedCompute.PrimeLadder.RangeFile

/-!
# The entries of a range file

Reading an entry undoes writing it, and nothing else is read as that entry: the tag says
which evidence follows, and the two numbers and the digest have one spelling each. An entry
keeps of a rung only the fields its kind needs, and only numbers of at most 32 varint bytes.
-/

namespace AttestedCompute.PrimeLadder

open Fallible (refuseIf_ok bind_ok pure_ok)

@[simp] theorem raiseIf_ok {bad : Prop} [Decidable bad] {message : String} {u : Unit} :
    raiseIf bad message = .ok u ↔ ¬ bad := refuseIf_ok

@[simp] theorem fail_ne_ok {α : Type} {message : String} {a : α} : (fail message : Checked α) ≠ .ok a := by
  simp [fail]

/-! ## Numbers and digests -/

/-- What 32 bytes of seven bits hold. -/
def varintBound : Nat := 2 ^ 224

theorem readVarint_ok {bytes rest : Bytes} {n : Nat} :
    readVarint bytes = .ok (n, rest) ↔ bytes = Varint.encode n ++ rest ∧ n < varintBound := by
  rw [varintBound, show 224 = 7 * MAX_VARINT_BYTES from rfl,
    ← Varint.read_ok (show 0 < MAX_VARINT_BYTES by decide)]
  unfold readVarint
  cases Varint.read MAX_VARINT_BYTES bytes with
  | ok read => simp
  | error fault => cases fault <;> simp

theorem writeVarint_ok {value : Int} {bytes : Bytes} :
    writeVarint value = .ok bytes ↔ ∃ n : Nat, value = n ∧ Varint.encode n = bytes := by
  unfold writeVarint
  split
  · rename_i hneg
    refine ⟨fun h => absurd h fail_ne_ok, ?_⟩
    rintro ⟨n, hn, -⟩
    omega
  · rename_i hpos
    constructor
    · intro h
      exact ⟨value.toNat, by omega, Except.ok.inj h⟩
    · rintro ⟨n, rfl, h⟩
      exact congrArg Except.ok h

/-- A text that is the spelling of 32 bytes. -/
def IsDigest (digest : Text) : Prop := ∃ bytes : Bytes, bytes.length = 32 ∧ digest = Text.ofString bytes.hex

theorem fromHex_hex (bytes : Bytes) : fromHex (Text.ofString bytes.hex) = bytes := by
  rw [fromHex, Text.map_toChar_ofString, Bytes.ofHexChars_hex]
  rfl

theorem isHexDigit_iff {c : CodePoint} : isHexDigit c = true ↔ Text.IsHex c := by
  simp only [isHexDigit, Text.IsHex, Bool.or_eq_true, Bool.and_eq_true, decide_eq_true_eq]

/-- A hexadecimal digit is a nibble. -/
theorem isSome_hexNibble {c : CodePoint} (h : Text.IsHex c) :
    (Bytes.hexNibble (Text.toChar c)).isSome = true := by
  have hall : ∀ n, (0x30 ≤ n ∧ n ≤ 0x39) ∨ (0x61 ≤ n ∧ n ≤ 0x66) →
      (Bytes.hexNibble (Char.ofNat n)).isSome = true := by
    intro n hn
    rcases hn with ⟨h1, h2⟩ | ⟨h1, h2⟩
    · interval_cases n <;> decide
    · interval_cases n <;> decide
  exact hall c.val h

theorem isDigest_iff {digest : Text} :
    IsDigest digest ↔ digest.length = 64 ∧ ∀ c ∈ digest, Text.IsHex c := by
  constructor
  · rintro ⟨bytes, hlen, rfl⟩
    exact ⟨by rw [Text.length_ofString_hex, hlen], fun c hc => Text.isHex_of_mem_hex hc⟩
  · rintro ⟨hlen, hhex⟩
    have hlong : (digest.map Text.toChar).length = 64 := by rw [List.length_map, hlen]
    have hnibbles : ∀ c ∈ digest.map Text.toChar, (Bytes.hexNibble c).isSome = true := by
      intro c hc
      obtain ⟨d, hd, rfl⟩ := List.mem_map.mp hc
      exact isSome_hexNibble (hhex d hd)
    obtain ⟨bytes, hbytes, hspelled⟩ := Bytes.exists_hex_eq 32 hlong hnibbles
    refine ⟨bytes, hbytes, ?_⟩
    refine Text.map_toChar_injOn (Text.encodable_of_isHex hhex) (Text.encodable_ofString _) ?_
    rw [Text.map_toChar_ofString, hspelled, String.toList_ofList]

theorem hexDigest_ok {value : Option Text} {name : String} {digest : Text} :
    hexDigest value name = .ok digest ↔ value = some digest ∧ IsDigest digest := by
  have hgood : ∀ d : Text, (d.length = 64 ∧ d.all isHexDigit = true) ↔ IsDigest d := by
    intro d
    rw [isDigest_iff, List.all_eq_true]
    exact and_congr_right fun _ => forall₂_congr fun c _ => isHexDigit_iff
  unfold hexDigest
  cases value with
  | none => simp
  | some d =>
      dsimp only
      split
      · rename_i hd
        constructor
        · intro h
          exact ⟨congrArg some (Except.ok.inj h), Except.ok.inj h ▸ (hgood d).mp hd⟩
        · rintro ⟨h, -⟩
          exact congrArg Except.ok (Option.some.inj h)
      · rename_i hd
        refine ⟨fun h => absurd h fail_ne_ok, ?_⟩
        rintro ⟨h, hdigest⟩
        exact absurd ((hgood d).mpr (Option.some.inj h ▸ hdigest)) hd

/-! ## One entry -/

/-- What an entry keeps of a rung. -/
def Rung.stored (rung : Rung) : Rung :=
  match rung.certificateKind with
  | .direct64 => { rung with witness := none, certificateSha256 := none }
  | .proth52 | .proth => { rung with certificateSha256 := none }
  | .pocklington | .external => { rung with witness := none }

/-- The numbers of an entry are short enough to be read back. -/
def Rung.Short (rung : Rung) (previous : Int) : Prop :=
  rung.number - previous < varintBound
    ∧ (rung.certificateKind = .proth52 ∨ rung.certificateKind = .proth →
        ∀ witness ∈ rung.witness, witness < varintBound)

/-- Writing looks only at what an entry keeps. -/
theorem encodeRung_stored (rung : Rung) (previous : Int) :
    encodeRung rung.stored previous = encodeRung rung previous := by
  obtain ⟨number, kind, witness, digest⟩ := rung
  cases kind <;> rfl

theorem encodeRung_ok {rung : Rung} {previous : Int} {entry : Bytes} :
    encodeRung rung previous = .ok entry ↔
      ∃ n : Nat, rung.number = previous + n ∧ ∃ evidence, encodeEvidence rung = .ok evidence
        ∧ rung.certificateKind.tag :: (Varint.encode n ++ evidence) = entry := by
  unfold encodeRung
  simp only [bind_ok, raiseIf_ok, pure_ok, writeVarint_ok]
  constructor
  · rintro ⟨_, -, _, ⟨n, hn, rfl⟩, evidence, hevidence, hentry⟩
    exact ⟨n, by omega, evidence, hevidence, hentry⟩
  · rintro ⟨n, hn, evidence, hevidence, hentry⟩
    exact ⟨(), by omega, _, ⟨n, by omega, rfl⟩, evidence, hevidence, hentry⟩

theorem ofTag_eq_some {tag : UInt8} {kind : CertificateKind} :
    CertificateKind.ofTag tag = some kind ↔ kind.tag = tag := by
  constructor
  · intro h
    unfold CertificateKind.ofTag at h
    simpa using List.find?_some h
  · rintro rfl
    cases kind <;> rfl

/-- The rung is what an entry keeps, with the evidence that stands at the front of the bytes. -/
def ReadsAs (kind : CertificateKind) (number : Int) (bytes rest : Bytes) (rung : Rung) : Prop :=
  rung.number = number ∧ rung.certificateKind = kind ∧ rung.stored = rung
    ∧ (kind = .proth52 ∨ kind = .proth → ∀ witness ∈ rung.witness, witness < varintBound)
    ∧ ∃ evidence, encodeEvidence rung = .ok evidence ∧ bytes = evidence ++ rest

theorem decodeDirect_ok {number : Int} {bytes rest : Bytes} {rung : Rung} :
    decodeEvidence .direct64 number bytes = .ok (rung, rest) ↔
      ReadsAs .direct64 number bytes rest rung := by
  obtain ⟨n, k, witness, digest⟩ := rung
  unfold ReadsAs
  constructor
  · intro h
    simp only [decodeEvidence, Except.ok.injEq, Prod.mk.injEq, Rung.mk.injEq] at h
    obtain ⟨⟨rfl, rfl, rfl, rfl⟩, rfl⟩ := h
    exact ⟨rfl, rfl, rfl, by simp, [], rfl, rfl⟩
  · rintro ⟨rfl, rfl, hstored, -, evidence, hevidence, rfl⟩
    simp only [Rung.stored, Rung.mk.injEq] at hstored
    obtain ⟨-, -, rfl, rfl⟩ := hstored
    obtain rfl := Except.ok.inj hevidence
    rfl

/-- The evidence of a Proth rung is its witness. -/
theorem decodeWitness_ok {kind : CertificateKind} (hkind : kind = .proth52 ∨ kind = .proth)
    {number : Int} {bytes rest : Bytes} {rung : Rung} :
    decodeEvidence kind number bytes = .ok (rung, rest) ↔ ReadsAs kind number bytes rest rung := by
  obtain ⟨n, k, witness, digest⟩ := rung
  have hread : decodeEvidence kind number bytes = (do
      let read ← readVarint bytes
      pure (⟨number, kind, some (read.1 : Int), none⟩, read.2)) := by
    rcases hkind with rfl | rfl <;> rfl
  have hwrite : ∀ w : Int, encodeEvidence ⟨n, kind, some w, digest⟩ = writeVarint w := by
    rcases hkind with rfl | rfl <;> exact fun _ => rfl
  have hmissing : ∀ evidence, encodeEvidence ⟨n, kind, none, digest⟩ ≠ .ok evidence := by
    rcases hkind with rfl | rfl <;> exact fun _ => fail_ne_ok
  have hstored : Rung.stored ⟨n, kind, witness, digest⟩ = ⟨n, kind, witness, none⟩ := by
    rcases hkind with rfl | rfl <;> rfl
  unfold ReadsAs
  rw [hread]
  constructor
  · intro h
    obtain ⟨⟨w, more⟩, hw, hrung⟩ := bind_ok.mp h
    obtain ⟨rfl, hbound⟩ := readVarint_ok.mp hw
    have hrung := Except.ok.inj hrung
    rw [Prod.mk.injEq, Rung.mk.injEq] at hrung
    obtain ⟨⟨rfl, rfl, rfl, rfl⟩, rfl⟩ := hrung
    refine ⟨rfl, rfl, hstored, fun _ w' hw' => ?_, _,
      (hwrite _).trans (writeVarint_ok.mpr ⟨w, rfl, rfl⟩), rfl⟩
    obtain rfl := Option.some.inj hw'
    exact_mod_cast hbound
  · rintro ⟨rfl, rfl, hself, hbound, evidence, hevidence, rfl⟩
    rw [hstored, Rung.mk.injEq] at hself
    obtain ⟨-, -, -, rfl⟩ := hself
    cases witness with
    | none => exact absurd hevidence (hmissing _)
    | some w =>
        rw [hwrite, writeVarint_ok] at hevidence
        obtain ⟨w, rfl, rfl⟩ := hevidence
        have hw : w < varintBound := by exact_mod_cast hbound hkind _ rfl
        exact bind_ok.mpr ⟨(w, rest), readVarint_ok.mpr ⟨rfl, hw⟩, rfl⟩

/-- The evidence of a certified rung is the digest of its certificate. -/
theorem decodeDigest_ok {kind : CertificateKind} (hkind : kind = .pocklington ∨ kind = .external)
    {number : Int} {bytes rest : Bytes} {rung : Rung} :
    decodeEvidence kind number bytes = .ok (rung, rest) ↔ ReadsAs kind number bytes rest rung := by
  obtain ⟨n, k, witness, digest⟩ := rung
  have hread : decodeEvidence kind number bytes =
      if bytes.length < 32 then fail "truncated certificate digest"
      else .ok (⟨number, kind, none, some (Text.ofString (Bytes.hex (bytes.take 32)))⟩,
        bytes.drop 32) := by
    rcases hkind with rfl | rfl <;> rfl
  have hwrite : encodeEvidence ⟨n, kind, witness, digest⟩ = (do
      let digest ← hexDigest digest "certificate_sha256"
      pure (fromHex digest)) := by
    rcases hkind with rfl | rfl <;> rfl
  have hstored : Rung.stored ⟨n, kind, witness, digest⟩ = ⟨n, kind, none, digest⟩ := by
    rcases hkind with rfl | rfl <;> rfl
  have hnot : ¬ (kind = .proth52 ∨ kind = .proth) := by
    rcases hkind with rfl | rfl <;> decide
  unfold ReadsAs
  rw [hread]
  constructor
  · intro h
    split at h
    · exact absurd h fail_ne_ok
    rename_i hlong
    simp only [Except.ok.injEq, Prod.mk.injEq, Rung.mk.injEq] at h
    obtain ⟨⟨rfl, rfl, rfl, rfl⟩, rfl⟩ := h
    have htake : (bytes.take 32).length = 32 := by
      rw [List.length_take]
      omega
    refine ⟨rfl, rfl, hstored, fun h => absurd h hnot, bytes.take 32, ?_,
      (List.take_append_drop 32 bytes).symm⟩
    exact hwrite.trans (bind_ok.mpr ⟨_, hexDigest_ok.mpr ⟨rfl, _, htake, rfl⟩,
      pure_ok.mpr (fromHex_hex _)⟩)
  · rintro ⟨rfl, rfl, hself, -, evidence, hevidence, rfl⟩
    rw [hstored, Rung.mk.injEq] at hself
    obtain ⟨-, -, rfl, -⟩ := hself
    rw [hwrite] at hevidence
    obtain ⟨d, hd, hbytes⟩ := bind_ok.mp hevidence
    obtain ⟨rfl, front, hfront, rfl⟩ := hexDigest_ok.mp hd
    obtain rfl : front = evidence := (fromHex_hex front).symm.trans (pure_ok.mp hbytes)
    rw [if_neg (by rw [List.length_append]; omega), List.take_left' hfront, List.drop_left' hfront]

/-- What is read as the evidence of a rung is what is written for it. -/
theorem decodeEvidence_ok {kind : CertificateKind} {number : Int} {bytes rest : Bytes}
    {rung : Rung} :
    decodeEvidence kind number bytes = .ok (rung, rest) ↔ ReadsAs kind number bytes rest rung := by
  cases kind with
  | direct64 => exact decodeDirect_ok
  | proth52 => exact decodeWitness_ok (.inl rfl)
  | proth => exact decodeWitness_ok (.inr rfl)
  | pocklington => exact decodeDigest_ok (.inl rfl)
  | external => exact decodeDigest_ok (.inr rfl)

/-- **Reading an entry is the inverse of writing it.** -/
theorem decodeRung_ok {bytes rest : Bytes} {previous : Int} {rung : Rung} :
    decodeRung bytes previous = .ok (rung, rest) ↔
      ∃ entry, encodeRung rung previous = .ok entry ∧ bytes = entry ++ rest ∧ rung.stored = rung
        ∧ rung.Short previous := by
  unfold decodeRung Rung.Short
  cases bytes with
  | nil =>
      refine ⟨fun h => absurd h fail_ne_ok, ?_⟩
      rintro ⟨entry, hentry, hbytes, -⟩
      obtain ⟨_, _, _, _, rfl⟩ := encodeRung_ok.mp hentry
      exact absurd hbytes (by simp)
  | cons tag bytes =>
      simp only [bind_ok, Prod.exists, readVarint_ok, encodeRung_ok]
      constructor
      · rintro ⟨n, more, ⟨rfl, hn⟩, h⟩
        cases htag : CertificateKind.ofTag tag with
        | none =>
            rw [htag] at h
            exact absurd h fail_ne_ok
        | some kind =>
            rw [htag] at h
            obtain ⟨hnumber, rfl, hstored, hshort, evidence, hevidence, rfl⟩ := decodeEvidence_ok.mp h
            refine ⟨_, ⟨n, hnumber, evidence, hevidence, rfl⟩, ?_, hstored, by omega, hshort⟩
            rw [ofTag_eq_some.mp htag, List.cons_append, List.append_assoc]
      · rintro ⟨_, ⟨n, hnumber, evidence, hevidence, rfl⟩, hbytes, hstored, hn, hshort⟩
        rw [List.cons_append, List.cons.injEq, List.append_assoc] at hbytes
        refine ⟨n, _, ⟨hbytes.2, by omega⟩, ?_⟩
        rw [ofTag_eq_some.mpr hbytes.1.symm]
        exact decodeEvidence_ok.mpr ⟨hnumber, rfl, hstored, hshort, evidence, hevidence, rfl⟩

/-! ## All entries of a file -/

/-- The entries of rungs, each written against the one before it. -/
def entriesFrom : Int → List Rung → Checked Bytes
  | _, [] => .ok []
  | previous, rung :: rest => do
      let entry ← encodeRung rung previous
      let entries ← entriesFrom rung.number rest
      pure (entry ++ entries)

/-- Every entry keeps its rung whole and is short enough to be read. -/
def ReadableFrom : Int → List Rung → Prop
  | _, [] => True
  | previous, rung :: rest => (rung.stored = rung ∧ rung.Short previous) ∧ ReadableFrom rung.number rest

/-- The checks of the loop, on rungs instead of bytes. -/
def scanList (s : Surroundings) (p : CampaignParameters) (base : Int) :
    Nat → RangeScan → List Rung → Checked RangeScan
  | _, scan, [] => .ok scan
  | ordinal, scan, rung :: rest => do
      let scan ← scanRung s p base ordinal scan rung
      scanList s p base (ordinal + 1) scan rest

theorem scanRung_ok {s : Surroundings} {p : CampaignParameters} {base : Int} {ordinal : Nat}
    {scan result : RangeScan} {rung : Rung} :
    scanRung s p base ordinal scan rung = .ok result ↔
      (if ordinal = 0 then rung.number = base else scan.previous < rung.number)
        ∧ checkRung s rung p.prothExponent = .ok ()
        ∧ (ordinal ≠ 0 → rung.number - scan.previous ≤ p.maximumGap
            ∧ rung.number + p.binaryFirstEven ≤ scan.coveredThrough + 2)
        ∧ scan.observe p ordinal rung = result := by
  unfold scanRung
  by_cases h0 : ordinal = 0
  · rw [if_pos h0, if_pos h0]
    simp only [bind_ok, raiseIf_ok, pure_ok, not_not]
    constructor
    · rintro ⟨_, hbase, _, hcheck, _, -, _, -, hresult⟩
      exact ⟨hbase, hcheck, fun h => absurd h0 h, hresult⟩
    · rintro ⟨hbase, hcheck, -, hresult⟩
      exact ⟨(), hbase, (), hcheck, (), fun h => h.1 h0, (), fun h => h.1 h0, hresult⟩
  · rw [if_neg h0, if_neg h0]
    simp only [bind_ok, raiseIf_ok, pure_ok, not_le]
    constructor
    · rintro ⟨_, hnext, _, hcheck, _, hgap, _, hcovered, hresult⟩
      exact ⟨hnext, hcheck, fun h => ⟨not_lt.mp fun hlt => hgap ⟨h, hlt⟩,
        not_lt.mp fun hlt => hcovered ⟨h, hlt⟩⟩, hresult⟩
    · rintro ⟨hnext, hcheck, hspace, hresult⟩
      exact ⟨(), hnext, (), hcheck, (), fun h => absurd (hspace h.1).1 (not_le.mpr h.2), (),
        fun h => absurd (hspace h.1).2 (not_le.mpr h.2), hresult⟩

/-- **The loop reads exactly the entries of the rungs it checks.** -/
theorem scanRungs_ok {s : Surroundings} {p : CampaignParameters} {base : Int} {left ordinal : Nat}
    {scan result : RangeScan} {bytes rest : Bytes} :
    scanRungs s p base left ordinal scan bytes = .ok (result, rest) ↔
      ∃ rungs, rungs.length = left ∧ ReadableFrom scan.previous rungs
        ∧ scanList s p base ordinal scan rungs = .ok result
        ∧ ∃ body, entriesFrom scan.previous rungs = .ok body ∧ bytes = body ++ rest := by
  induction left generalizing ordinal scan bytes with
  | zero =>
      simp only [scanRungs, Except.ok.injEq, Prod.mk.injEq, List.length_eq_zero_iff,
        exists_eq_left, scanList, entriesFrom, ReadableFrom, true_and, exists_eq_left',
        List.nil_append]
  | succ left ih =>
      have hprevious : ∀ {rung : Rung} {next : RangeScan},
          scanRung s p base ordinal scan rung = .ok next → next.previous = rung.number := by
        intro rung next h
        exact (scanRung_ok.mp h).2.2.2 ▸ rfl
      simp only [scanRungs, bind_ok, Prod.exists, ih, decodeRung_ok]
      constructor
      · rintro ⟨rung, _, ⟨entry, hentry, rfl, hstored, hshort⟩, next, hnext, rungs, hlen, hread,
          hscan, body, hbody, rfl⟩
        rw [hprevious hnext] at hread hbody
        refine ⟨rung :: rungs, by rw [List.length_cons, hlen], ⟨⟨hstored, hshort⟩, hread⟩,
          bind_ok.mpr ⟨next, hnext, hscan⟩, entry ++ body, ?_, by rw [List.append_assoc]⟩
        exact bind_ok.mpr ⟨entry, hentry, bind_ok.mpr ⟨body, hbody, rfl⟩⟩
      · rintro ⟨rungs, hlen, hread, hscan, body, hbody, rfl⟩
        cases rungs with
        | nil => exact absurd hlen (by simp)
        | cons rung rungs =>
            obtain ⟨next, hnext, hscan⟩ := bind_ok.mp hscan
            obtain ⟨entry, hentry, hbody⟩ := bind_ok.mp hbody
            obtain ⟨more, hmore, hbody⟩ := bind_ok.mp hbody
            obtain rfl := pure_ok.mp hbody
            refine ⟨rung, more ++ rest, ⟨entry, hentry, by rw [List.append_assoc], hread.1⟩, next,
              hnext, rungs, by simpa using hlen, ?_, hscan, more, ?_, rfl⟩
            · rw [hprevious hnext]
              exact hread.2
            · rw [hprevious hnext]
              exact hmore

end AttestedCompute.PrimeLadder
