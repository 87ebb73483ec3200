import AttestedCompute.Receipt.NatSha256
import AttestedCompute.Lib.Fallible
import AttestedCompute.Lib.Text

/-!
# The signed payload of a run receipt

An enclave signs the digest of a canonical text of thirteen fields. The producer builds
the text from a dictionary (`canonicalSignedPayload`), the verifier from a record
(`CompCertRunReceipt.canonicalPayload`), and they build the same text.

Each field is committed, not inlined: its line holds the SHA-256 of the value. So the
payload determines the digests of the fields, and it determines the fields themselves
exactly as far as SHA-256 does.
-/

namespace AttestedCompute.Receipt

open Fallible NatSha256

/-! ## The producer -/

/-- The value of a dictionary entry: a string, or anything else. -/
inductive FieldValue
  | str (text : Text)
  | other
  deriving DecidableEq, Repr

/-- A dictionary keyed by strings. -/
structure Fields where
  entries : List (Text × FieldValue)
  nodup : (entries.map Prod.fst).Nodup

def Fields.get (fields : Fields) (name : Text) : Option FieldValue := fields.entries.lookup name

inductive ReceiptError
  | missingFields (names : List String)
  | unsignedFields (names : List Text)
  | notString (name : String)
  /-- A lone surrogate has no UTF-8 encoding. -/
  | encode
  deriving DecidableEq, Repr

/-- The message of the error that the producer raises itself. -/
def ReceiptError.message : ReceiptError → Option Text
  | .missingFields names =>
      some (Text.ofString ("receipt is missing signed fields: " ++ String.intercalate ", " names))
  | .unsignedFields names =>
      some (Text.ofString "receipt carries unsigned fields: "
        ++ List.intercalate (Text.ofString ", ") names)
  | .notString name => some (Text.ofString ("field " ++ name ++ " is not a string"))
  | .encode => none

def PAYLOAD_DOMAIN : String := "sparkinterval.compcert-run-receipt.v1"

/-- The order of the signed fields, part of the preimage. -/
def SIGNED_FIELDS : List String := [
  "algorithm_id",
  "algorithm_hash",
  "input_hash",
  "result",
  "output_hash",
  "matched_pinned_expectation",
  "app_id",
  "compose_hash",
  "app_compose_sha256",
  "docker_compose_file_sha256",
  "tdx_quote_sha256",
  "report_data_sha256",
  "issued_at"]

def sha256Hex (text : Text) : Except ReceiptError String :=
  if Text.Encodable text then .ok (Sha256.hexdigest text.utf8) else .error .encode

/-- One line, with the SHA-256 of the value. -/
def committedField (name : String) (value : Text) : Except ReceiptError Text := do
  let digest ← sha256Hex value
  pure (Text.ofString (name ++ "=" ++ digest ++ "\n"))

/-- One turn of the payload loop. -/
def appendField (fields : Fields) (payload : Text) (name : String) : Except ReceiptError Text :=
  match fields.get (Text.ofString name) with
  | none => .error (.missingFields [name])
  | some .other => .error (.notString name)
  | some (.str value) => do
      let line ← committedField name value
      pure (payload ++ line)

/-- The signed fields that the dictionary lacks. -/
def Fields.missing (fields : Fields) : List String :=
  SIGNED_FIELDS.filter fun n => (fields.get (Text.ofString n)).isNone

/-- The keys that are no signed fields. -/
def Fields.extra (fields : Fields) : List Text :=
  (fields.entries.map Prod.fst).filter fun key => !(SIGNED_FIELDS.map Text.ofString).contains key

def canonicalSignedPayload (fields : Fields) : Except ReceiptError Text :=
  if fields.missing ≠ [] then .error (.missingFields fields.missing)
  else if fields.extra ≠ [] then
    .error (.unsignedFields (fields.extra.insertionSort (· ≤ ·)))
  else SIGNED_FIELDS.foldlM (appendField fields) (Text.ofString (PAYLOAD_DOMAIN ++ "\n"))

/-! ## The verifier -/

/-- One enclave-signed receipt. -/
structure CompCertRunReceipt where
  algorithmId : String
  algorithmHash : String
  inputHash : String
  result : String
  outputHash : String
  matchedPinnedExpectation : String
  appId : String
  composeHash : String
  appComposeSha256 : String
  dockerComposeFileSha256 : String
  tdxQuoteSha256 : String
  reportDataSha256 : String
  issuedAt : String
  enclavePublicKey : String
  receiptSha256 : String
  signature : String
  deriving DecidableEq, Repr

namespace CompCertRunReceipt

/-- One line of the canonical payload. -/
def committedField (name value : String) : String := name ++ "=" ++ digestString value ++ "\n"

/-- The exact string the enclave signed. -/
def canonicalPayload (r : CompCertRunReceipt) : String :=
  "sparkinterval.compcert-run-receipt.v1\n"
    ++ committedField "algorithm_id" r.algorithmId
    ++ committedField "algorithm_hash" r.algorithmHash
    ++ committedField "input_hash" r.inputHash
    ++ committedField "result" r.result
    ++ committedField "output_hash" r.outputHash
    ++ committedField "matched_pinned_expectation" r.matchedPinnedExpectation
    ++ committedField "app_id" r.appId
    ++ committedField "compose_hash" r.composeHash
    ++ committedField "app_compose_sha256" r.appComposeSha256
    ++ committedField "docker_compose_file_sha256" r.dockerComposeFileSha256
    ++ committedField "tdx_quote_sha256" r.tdxQuoteSha256
    ++ committedField "report_data_sha256" r.reportDataSha256
    ++ committedField "issued_at" r.issuedAt

/-- The digest recomputes from the fields. -/
def digestCheck (r : CompCertRunReceipt) : Bool := digestString r.canonicalPayload == r.receiptSha256

/-- The signed fields, named and in order. -/
def signed (r : CompCertRunReceipt) : List (String × String) := [
  ("algorithm_id", r.algorithmId),
  ("algorithm_hash", r.algorithmHash),
  ("input_hash", r.inputHash),
  ("result", r.result),
  ("output_hash", r.outputHash),
  ("matched_pinned_expectation", r.matchedPinnedExpectation),
  ("app_id", r.appId),
  ("compose_hash", r.composeHash),
  ("app_compose_sha256", r.appComposeSha256),
  ("docker_compose_file_sha256", r.dockerComposeFileSha256),
  ("tdx_quote_sha256", r.tdxQuoteSha256),
  ("report_data_sha256", r.reportDataSha256),
  ("issued_at", r.issuedAt)]

theorem signed_names (r : CompCertRunReceipt) : r.signed.map Prod.fst = SIGNED_FIELDS := rfl

/-- The payload is the domain line and one committed line per signed field. -/
theorem canonicalPayload_eq (r : CompCertRunReceipt) :
    r.canonicalPayload = r.signed.foldl (fun payload p => payload ++ committedField p.1 p.2)
      (PAYLOAD_DOMAIN ++ "\n") := rfl

end CompCertRunReceipt

/-- The dictionary holds exactly the signed fields of the receipt. -/
structure Carries (fields : Fields) (r : CompCertRunReceipt) : Prop where
  keys : ∀ key ∈ fields.entries.map Prod.fst, key ∈ SIGNED_FIELDS.map Text.ofString
  values : ∀ p ∈ r.signed, fields.get (Text.ofString p.1) = some (.str (Text.ofString p.2))

/-! ## The two payloads -/

theorem utf8_ofString (s : String) : (Text.ofString s).utf8 = NatSha256.utf8 s := by
  rw [Text.utf8, Text.map_toChar_ofString, NatSha256.utf8]

/-- A dictionary value as a string of characters. -/
def Fields.value (fields : Fields) (name : String) : String :=
  match fields.get (Text.ofString name) with
  | some (.str text) => String.ofList (text.map Text.toChar)
  | _ => ""

/-- The entry is a string without lone surrogates. -/
def Fields.Readable (fields : Fields) (name : String) : Prop :=
  fields.get (Text.ofString name) = some (.str (Text.ofString (fields.value name)))

theorem readable_of_get {fields : Fields} {name value : String}
    (h : fields.get (Text.ofString name) = some (.str (Text.ofString value))) :
    fields.value name = value ∧ fields.Readable name := by
  have hvalue : fields.value name = value := by
    rw [Fields.value, h]
    show String.ofList ((Text.ofString value).map Text.toChar) = value
    rw [Text.map_toChar_ofString, String.ofList_toList]
  refine ⟨hvalue, ?_⟩
  rw [Fields.Readable, hvalue]
  exact h

/-- **One field.** The line the producer appends is the line the verifier commits. -/
theorem appendField_ok {fields : Fields} {payload out : Text} {name : String} :
    appendField fields payload name = .ok out ↔ fields.Readable name
      ∧ out = payload ++ Text.ofString
          (CompCertRunReceipt.committedField name (fields.value name)) := by
  have hline : ∀ value : String,
      committedField name (Text.ofString value)
        = .ok (Text.ofString (CompCertRunReceipt.committedField name value)) := by
    intro value
    have hhex : sha256Hex (Text.ofString value) = .ok (digestString value) := by
      rw [sha256Hex, if_pos (Text.encodable_ofString value), digestString_eq, utf8_ofString]
    rw [committedField, hhex]
    rfl
  constructor
  · intro h
    unfold appendField at h
    split at h
    · cases h
    · cases h
    · rename_i text hget
      have hencodable : Text.Encodable text := by
        by_contra hbad
        rw [committedField, sha256Hex, if_neg hbad] at h
        cases h
      obtain ⟨value, rfl⟩ := Text.encodable_iff.mp hencodable
      obtain ⟨hvalue, hread⟩ := readable_of_get hget
      rw [hline] at h
      refine ⟨hread, ?_⟩
      injection h with h
      rw [hvalue, ← h]
  · rintro ⟨hread, rfl⟩
    rw [appendField, hread]
    show (committedField name _ >>= fun line => pure (payload ++ line)) = _
    rw [hline]
    rfl

/-- **All fields.** -/
theorem appendFields_ok {fields : Fields} {names : List String} {payload out : Text} :
    names.foldlM (appendField fields) payload = .ok out ↔ (∀ n ∈ names, fields.Readable n)
      ∧ out = names.foldl (fun payload n => payload ++ Text.ofString
          (CompCertRunReceipt.committedField n (fields.value n))) payload := by
  induction names generalizing payload with
  | nil =>
      rw [List.foldlM_nil, pure_ok]
      exact ⟨fun h => ⟨List.forall_mem_nil _, h.symm⟩, fun h => h.2.symm⟩
  | cons name names ih =>
      rw [List.foldlM_cons, bind_ok]
      simp only [appendField_ok, ih]
      constructor
      · rintro ⟨_, ⟨hhead, rfl⟩, htail, hout⟩
        exact ⟨List.forall_mem_cons.mpr ⟨hhead, htail⟩, hout⟩
      · rintro ⟨hall, hout⟩
        obtain ⟨hhead, htail⟩ := List.forall_mem_cons.mp hall
        exact ⟨_, ⟨hhead, rfl⟩, htail, hout⟩

/-- The record of the values of a dictionary. -/
def Fields.receipt (fields : Fields) : CompCertRunReceipt where
  algorithmId := fields.value "algorithm_id"
  algorithmHash := fields.value "algorithm_hash"
  inputHash := fields.value "input_hash"
  result := fields.value "result"
  outputHash := fields.value "output_hash"
  matchedPinnedExpectation := fields.value "matched_pinned_expectation"
  appId := fields.value "app_id"
  composeHash := fields.value "compose_hash"
  appComposeSha256 := fields.value "app_compose_sha256"
  dockerComposeFileSha256 := fields.value "docker_compose_file_sha256"
  tdxQuoteSha256 := fields.value "tdx_quote_sha256"
  reportDataSha256 := fields.value "report_data_sha256"
  issuedAt := fields.value "issued_at"
  enclavePublicKey := ""
  receiptSha256 := ""
  signature := ""

theorem signed_receipt (fields : Fields) :
    fields.receipt.signed = SIGNED_FIELDS.map fun n => (n, fields.value n) := rfl

/-- The verifier's payload, as the producer's loop over the signed fields. -/
theorem canonicalPayload_receipt (fields : Fields) :
    Text.ofString fields.receipt.canonicalPayload
      = SIGNED_FIELDS.foldl (fun payload n => payload ++ Text.ofString
          (CompCertRunReceipt.committedField n (fields.value n)))
          (Text.ofString (PAYLOAD_DOMAIN ++ "\n")) := by
  rw [CompCertRunReceipt.canonicalPayload_eq, signed_receipt, List.foldl_map]
  exact (List.foldl_hom Text.ofString fun payload n => (Text.ofString_append _ _).symm).symm

/-- A dictionary passes the producer's checks when it holds the signed fields and no others. -/
theorem canonicalSignedPayload_ok {fields : Fields} {payload : Text} :
    canonicalSignedPayload fields = .ok payload
      ↔ (∀ key ∈ fields.entries.map Prod.fst, key ∈ SIGNED_FIELDS.map Text.ofString)
        ∧ (∀ n ∈ SIGNED_FIELDS, fields.Readable n)
        ∧ payload = Text.ofString fields.receipt.canonicalPayload := by
  rw [canonicalPayload_receipt]
  unfold canonicalSignedPayload
  constructor
  · intro h
    split at h
    · cases h
    · split at h
      · cases h
      · rename_i hmissing hextra
        have hkeys := List.filter_eq_nil_iff.mp (not_not.mp hextra)
        refine ⟨fun key hkey => ?_, appendFields_ok.mp h⟩
        simpa using hkeys key hkey
  · rintro ⟨hkeys, hread, hout⟩
    have hmissing : fields.missing = [] :=
      List.filter_eq_nil_iff.mpr fun n hn => by
        rw [hread n hn]
        simp
    have hextra : fields.extra = [] :=
      List.filter_eq_nil_iff.mpr fun key hkey => by simpa using hkeys key hkey
    rw [if_neg (not_not.mpr hmissing), if_neg (not_not.mpr hextra)]
    exact appendFields_ok.mpr ⟨hread, hout⟩

theorem carries_iff {fields : Fields} :
    (∃ r, Carries fields r)
      ↔ (∀ key ∈ fields.entries.map Prod.fst, key ∈ SIGNED_FIELDS.map Text.ofString)
        ∧ ∀ n ∈ SIGNED_FIELDS, fields.Readable n := by
  constructor
  · rintro ⟨r, hkeys, hvalues⟩
    refine ⟨hkeys, fun n hn => ?_⟩
    rw [← r.signed_names] at hn
    obtain ⟨p, hp, rfl⟩ := List.mem_map.mp hn
    exact (readable_of_get (hvalues p hp)).2
  · rintro ⟨hkeys, hread⟩
    refine ⟨fields.receipt, hkeys, fun p hp => ?_⟩
    rw [signed_receipt] at hp
    obtain ⟨n, hn, rfl⟩ := List.mem_map.mp hp
    exact hread n hn

/-- The record a dictionary carries has the dictionary's payload. -/
theorem Carries.canonicalPayload_eq {fields : Fields} {r : CompCertRunReceipt}
    (h : Carries fields r) : fields.receipt.canonicalPayload = r.canonicalPayload := by
  have hvalue : ∀ p ∈ r.signed, fields.value p.1 = p.2 := fun p hp =>
    (readable_of_get (h.values p hp)).1
  have hsigned : fields.receipt.signed = r.signed := by
    rw [signed_receipt, ← r.signed_names, List.map_map]
    refine (List.map_congr_left fun p hp => ?_).trans (List.map_id _)
    show (p.1, fields.value p.1) = p
    rw [hvalue p hp]
  rw [CompCertRunReceipt.canonicalPayload_eq, hsigned, ← CompCertRunReceipt.canonicalPayload_eq]

/-- **The two payloads agree.** The producer accepts exactly the dictionaries that carry a
receipt, and signs the text that the verifier rebuilds. -/
theorem canonicalSignedPayload_iff {fields : Fields} {payload : Text} :
    canonicalSignedPayload fields = .ok payload
      ↔ ∃ r, Carries fields r ∧ payload = Text.ofString r.canonicalPayload := by
  rw [canonicalSignedPayload_ok]
  constructor
  · intro h
    obtain ⟨r, hr⟩ := carries_iff.mpr ⟨h.1, h.2.1⟩
    exact ⟨r, hr, by rw [h.2.2, hr.canonicalPayload_eq]⟩
  · intro h
    obtain ⟨r, hr, hpayload⟩ := h
    obtain ⟨hkeys, hread⟩ := carries_iff.mp ⟨r, hr⟩
    exact ⟨hkeys, hread, by rw [hpayload, hr.canonicalPayload_eq]⟩

/-! ## What the payload determines -/

/-- The payload is the concatenation of its lines. -/
theorem toList_payload (acc : String) (ps : List (String × String)) :
    (ps.foldl (fun payload p => payload ++ CompCertRunReceipt.committedField p.1 p.2) acc).toList
      = acc.toList
        ++ (ps.map fun p => (CompCertRunReceipt.committedField p.1 p.2).toList).flatten := by
  induction ps generalizing acc with
  | nil => simp
  | cons p ps ih =>
      rw [List.foldl_cons, ih, String.toList_append, List.map_cons, List.flatten_cons,
        List.append_assoc]

theorem length_digestString (s : String) : (digestString s).toList.length = 64 := by
  rw [digestString_eq, String.length_toList, Sha256.length_hexdigest]

theorem toList_committedField (name value : String) :
    (CompCertRunReceipt.committedField name value).toList
      = name.toList ++ ('=' :: ((digestString value).toList ++ ['\n'])) := by
  have heq : "=".toList = ['='] := rfl
  have hnewline : "\n".toList = ['\n'] := rfl
  rw [CompCertRunReceipt.committedField, String.toList_append, String.toList_append,
    String.toList_append, List.append_assoc, List.append_assoc, heq, hnewline, List.singleton_append]

/-- Lines with the same names hold the same digests. -/
theorem digests_of_lines {ps qs : List (String × String)}
    (hnames : ps.map Prod.fst = qs.map Prod.fst)
    (hlines : (ps.map fun p => (CompCertRunReceipt.committedField p.1 p.2).toList)
      = qs.map fun p => (CompCertRunReceipt.committedField p.1 p.2).toList) :
    (ps.map fun p => digestString p.2) = qs.map fun p => digestString p.2 := by
  induction ps generalizing qs with
  | nil =>
      rw [List.map_nil] at hnames
      rw [List.map_eq_nil_iff.mp hnames.symm]
  | cons p ps ih =>
      cases qs with
      | nil => cases hnames
      | cons q qs =>
          rw [List.map_cons, List.map_cons, List.cons.injEq] at hnames hlines
          obtain ⟨hname, hnames⟩ := hnames
          obtain ⟨hline, hlines⟩ := hlines
          rw [toList_committedField, toList_committedField, hname, List.append_right_inj,
            List.cons.injEq, List.append_left_inj] at hline
          rw [List.map_cons, List.map_cons, ih hnames hlines, String.toList_inj.mp hline.2]

/-- **The payload determines the digest of every field.** -/
theorem digests_of_payload {r₁ r₂ : CompCertRunReceipt}
    (h : r₁.canonicalPayload = r₂.canonicalPayload) :
    (r₁.signed.map fun p => digestString p.2) = r₂.signed.map fun p => digestString p.2 := by
  have hlist := congrArg String.toList h
  rw [CompCertRunReceipt.canonicalPayload_eq, CompCertRunReceipt.canonicalPayload_eq,
    toList_payload, toList_payload, List.append_right_inj] at hlist
  -- a line is as long as its name says, whatever the value
  have hlength : ∀ r : CompCertRunReceipt,
      ((r.signed.map fun p => (CompCertRunReceipt.committedField p.1 p.2).toList).map List.length)
        = SIGNED_FIELDS.map fun n => n.toList.length + 66 := by
    intro r
    rw [← r.signed_names, List.map_map, List.map_map]
    refine List.map_congr_left fun p _ => ?_
    show (CompCertRunReceipt.committedField p.1 p.2).toList.length = p.1.toList.length + 66
    rw [toList_committedField, List.length_append, List.length_cons, List.length_append,
      length_digestString]
    rfl
  refine digests_of_lines ?_ (List.eq_iff_flatten_eq.mpr ⟨hlist, ?_⟩)
  · rw [r₁.signed_names, r₂.signed_names]
  · rw [hlength, hlength]

/-- The messages that the payload of a receipt commits. -/
def committedMessages (r : CompCertRunReceipt) : Set Bytes := {m | ∃ p ∈ r.signed, m = utf8 p.2}

theorem utf8_injective : Function.Injective utf8 := by
  intro s t h
  have h' : (Text.ofString s).utf8 = (Text.ofString t).utf8 := by
    rw [utf8_ofString, utf8_ofString, h]
  exact Text.ofString_injective
    (Text.utf8_injective (Text.encodable_ofString s) (Text.encodable_ofString t) h')

/-- Two field lists with the same names and digests agree where the hash does not collide. -/
theorem signed_eq_of_digests {ps qs : List (String × String)}
    (hnames : ps.map Prod.fst = qs.map Prod.fst)
    (hdigests : (ps.map fun p => digestString p.2) = qs.map fun p => digestString p.2)
    (hinj : Set.InjOn Sha256.digest {m | ∃ p, (p ∈ ps ∨ p ∈ qs) ∧ m = utf8 p.2}) : ps = qs := by
  induction ps generalizing qs with
  | nil =>
      rw [List.map_nil] at hnames
      exact (List.map_eq_nil_iff.mp hnames.symm).symm
  | cons p ps ih =>
      cases qs with
      | nil => cases hnames
      | cons q qs =>
          rw [List.map_cons, List.map_cons, List.cons.injEq] at hnames hdigests
          obtain ⟨hname, hnames⟩ := hnames
          obtain ⟨hdigest, hdigests⟩ := hdigests
          have hrest : ps = qs := by
            refine ih hnames hdigests (hinj.mono ?_)
            rintro m ⟨r, hr, rfl⟩
            exact ⟨r, hr.imp (List.mem_cons_of_mem p) (List.mem_cons_of_mem q), rfl⟩
          rw [digestString_eq, digestString_eq] at hdigest
          have hvalue : utf8 p.2 = utf8 q.2 :=
            hinj ⟨p, Or.inl List.mem_cons_self, rfl⟩ ⟨q, Or.inr List.mem_cons_self, rfl⟩
              (Bytes.hex_injective hdigest)
          rw [hrest, Prod.ext hname (utf8_injective hvalue)]

/-- A receipt whose fields are all empty but for the time of issue. -/
def issued (time : String) : CompCertRunReceipt where
  algorithmId := ""
  algorithmHash := ""
  inputHash := ""
  result := ""
  outputHash := ""
  matchedPinnedExpectation := ""
  appId := ""
  composeHash := ""
  appComposeSha256 := ""
  dockerComposeFileSha256 := ""
  tdxQuoteSha256 := ""
  reportDataSha256 := ""
  issuedAt := time
  enclavePublicKey := ""
  receiptSha256 := ""
  signature := ""

/-- The payload is a function of the names and the digests. -/
theorem payload_of_digests {r₁ r₂ : CompCertRunReceipt}
    (h : (r₁.signed.map fun p => (p.1, digestString p.2))
      = r₂.signed.map fun p => (p.1, digestString p.2)) :
    r₁.canonicalPayload = r₂.canonicalPayload := by
  have hfold : ∀ r : CompCertRunReceipt, r.canonicalPayload
      = (r.signed.map fun p => (p.1, digestString p.2)).foldl
          (fun payload q => payload ++ (q.1 ++ "=" ++ q.2 ++ "\n")) (PAYLOAD_DOMAIN ++ "\n") := by
    intro r
    rw [CompCertRunReceipt.canonicalPayload_eq, List.foldl_map]
    simp only [CompCertRunReceipt.committedField]
  rw [hfold, hfold, h]

theorem signed_issued (time : String) :
    (issued time).signed = (SIGNED_FIELDS.take 12).map (fun n => (n, "")) ++ [("issued_at", time)] :=
  rfl

/-- There are more texts than digests. -/
theorem exists_collision : ∃ s t : String, s ≠ t ∧ digestString s = digestString t := by
  let text : ℕ → String := fun n => String.ofList (List.replicate n 'a')
  let value : ℕ → Fin (256 ^ 32) := fun n =>
    ⟨Bytes.beValue (Sha256.digest (utf8 (text n))), by
      have hlt := Bytes.beValue_lt (Sha256.digest (utf8 (text n)))
      rwa [Sha256.length_digest] at hlt⟩
  obtain ⟨m, n, hvalue, hne⟩ : ∃ m n, value m = value n ∧ m ≠ n := by
    have hnot := not_injective_infinite_finite value
    simpa [Function.Injective] using hnot
  refine ⟨text m, text n, fun h => hne ?_, ?_⟩
  · have hlength := congrArg (fun s => s.toList.length) h
    simpa [text] using hlength
  · have hdigest : Sha256.digest (utf8 (text m)) = Sha256.digest (utf8 (text n)) :=
      Bytes.beValue_inj (by simp) (congrArg Fin.val hvalue)
    rw [digestString_eq, digestString_eq, Sha256.hexdigest, Sha256.hexdigest, hdigest]

/-- A dictionary of the signed fields of a receipt. -/
def CompCertRunReceipt.fields (r : CompCertRunReceipt) : Fields where
  entries := r.signed.map fun p => (Text.ofString p.1, .str (Text.ofString p.2))
  nodup := by
    have hnames : (r.signed.map fun p => (Text.ofString p.1, FieldValue.str (Text.ofString p.2))).map
        Prod.fst = SIGNED_FIELDS.map Text.ofString := by
      rw [← r.signed_names, List.map_map, List.map_map]
      rfl
    rw [hnames]
    exact List.Nodup.map Text.ofString_injective (by decide)

/-- With distinct keys, an entry is what its key looks up. -/
theorem lookup_of_mem {α β : Type} [BEq α] [LawfulBEq α] {entries : List (α × β)}
    (hnodup : (entries.map Prod.fst).Nodup) {key : α} {value : β} (h : (key, value) ∈ entries) :
    entries.lookup key = some value := by
  induction entries with
  | nil => cases h
  | cons entry rest ih =>
      obtain ⟨hnot, hrest⟩ := List.nodup_cons.mp hnodup
      rcases List.mem_cons.mp h with rfl | h
      · rw [List.lookup_cons_self]
      · have hne : key ≠ entry.1 := by
          rintro rfl
          exact hnot (List.mem_map.mpr ⟨_, h, rfl⟩)
        rw [List.lookup_cons, beq_false_of_ne hne]
        exact ih hrest h

theorem carries_fields (r : CompCertRunReceipt) : Carries r.fields r := by
  refine ⟨fun key hkey => ?_, fun p hp => ?_⟩
  · rw [← r.signed_names]
    obtain ⟨entry, hentry, rfl⟩ := List.mem_map.mp hkey
    obtain ⟨p, hp, rfl⟩ := List.mem_map.mp hentry
    exact List.mem_map_of_mem (List.mem_map_of_mem hp)
  · exact lookup_of_mem r.fields.nodup (List.mem_map.mpr ⟨p, hp, rfl⟩)

/-- A receipt that names its own payload's digest. -/
def sealedReceipt (time : String) : CompCertRunReceipt :=
  { issued time with receiptSha256 := digestString (issued time).canonicalPayload }

/-- The payload leaves the digest out. -/
theorem canonicalPayload_seal (r : CompCertRunReceipt) (sha : String) :
    { r with receiptSha256 := sha }.canonicalPayload = r.canonicalPayload := rfl

/-- A receipt sealed with the digest of its payload passes its own check. -/
theorem digestCheck_seal (r : CompCertRunReceipt) :
    { r with receiptSha256 := digestString r.canonicalPayload }.digestCheck = true := by
  rw [CompCertRunReceipt.digestCheck, beq_iff_eq, canonicalPayload_seal]

end AttestedCompute.Receipt
