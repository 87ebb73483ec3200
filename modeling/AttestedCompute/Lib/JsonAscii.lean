import AttestedCompute.Lib.Json

/-!
# JSON text in ASCII

`json.dumps` with `ensure_ascii=True` prints the text of `Json.dumps` and then writes every
character outside printable ASCII as `\u` and four hexadecimal digits, one escape for each
UTF-16 code unit. Two lone surrogates in a row print like the one character they would
encode, so the text determines the value only when no string holds a surrogate.
-/

namespace Json

/-- The UTF-16 code units of a character. A lone surrogate is a unit of its own. -/
def utf16 (c : CodePoint) : List Nat :=
  if c.val < 0x10000 then [c.val]
  else [0xD800 + (c.val - 0x10000) / 0x400, 0xDC00 + (c.val - 0x10000) % 0x400]

/-- `'\\u{0:04x}'.format(unit)` -/
def unicodeEscape (unit : Nat) : Text :=
  0x5C :: Text.ofChar 'u'
    :: (Positional.digits 16 4 unit).map fun d => Text.ofChar (Bytes.hexDigit d)

/-- Printable ASCII. -/
def isPrintable (c : CodePoint) : Bool := 0x20 ≤ c.val && c.val ≤ 0x7E

/-- What `ensure_ascii` writes for a character of the text. -/
def asciify (c : CodePoint) : Text :=
  if isPrintable c then [c] else (utf16 c).flatMap unicodeEscape

/-- `json.dumps(value, ensure_ascii=True, sort_keys=True, separators=(",", ":"))` -/
def dumpsAscii (v : Json) : Text := (dumps v).flatMap asciify

/-- The ASCII text of a value as bytes. Encoding it cannot fail. -/
def asciiBytes (v : Json) : Except Fault Bytes :=
  if fits v = false then .error .longInteger else .ok (dumpsAscii v).utf8

theorem asciiBytes_isOk {v : Json} : (∃ bytes, asciiBytes v = .ok bytes) ↔ fits v = true := by
  unfold asciiBytes
  cases fits v <;> simp

theorem fits_arr {items : List Json} :
    fits (arr items) = true ↔ ∀ item ∈ items, fits item = true := by
  rw [fits]
  induction items with
  | nil => simp [fitsItems]
  | cons item items ih => simp [fitsItems, ih]

theorem fits_obj {members : List (Text × Json)} :
    fits (obj members) = true ↔ ∀ member ∈ members, fits member.2 = true := by
  rw [fits]
  induction members with
  | nil => simp [fitsMembers]
  | cons member members ih => simp [fitsMembers, ih]

/-- An object with keys written out in the source. -/
def object (members : List (String × Json)) : Json :=
  obj (members.map fun member => (Text.ofString member.1, member.2))

theorem fits_object {members : List (String × Json)} :
    fits (object members) = true ↔ ∀ member ∈ members, fits member.2 = true := by
  rw [object, fits_obj, List.forall_mem_map]

theorem fits_int {n : Int} : fits (int n) = true ↔ n.natAbs < 10 ^ 4300 := by
  rw [fits, decide_eq_true_eq]

/-- An integer prints when one further from zero does. -/
theorem fits_int_of_le {m n : Int} (h : m.natAbs ≤ n.natAbs) (hn : fits (int n) = true) :
    fits (int m) = true :=
  fits_int.mpr (lt_of_le_of_lt h (fits_int.mp hn))

/-- Integers of up to 4300 bits print. -/
theorem fits_int_of_lt {n : Int} {k : Nat} (hk : k ≤ 4300) (h : n.natAbs < 2 ^ k) :
    fits (int n) = true := by
  have hlarge : ∀ m, k ≤ m → 2 ^ k ≤ 10 ^ m := fun m hm =>
    (Nat.pow_le_pow_left (show 2 ≤ 10 by decide) k).trans
      (Nat.pow_le_pow_right (show 0 < 10 by decide) hm)
  exact fits_int.mpr (lt_of_lt_of_le h (hlarge 4300 hk))

/-- Integers of machine words print. -/
theorem fits_int_of_word {n : Int} (h : n.natAbs < 2 ^ 64) : fits (int n) = true :=
  fits_int_of_lt (show 64 ≤ 4300 by decide) h

/-! ## The text is ASCII -/

theorem digit_printable {d : Nat} (h : d < 16) :
    isPrintable (Text.ofChar (Bytes.hexDigit d)) = true := by
  interval_cases d <;> decide

theorem asciify_printable (c d : CodePoint) (h : d ∈ asciify c) : isPrintable d = true := by
  unfold asciify at h
  split at h
  · rename_i hc
    rw [List.mem_singleton.mp h]
    exact hc
  · obtain ⟨unit, -, hd⟩ := List.mem_flatMap.mp h
    rcases List.mem_cons.mp hd with rfl | hd
    · decide
    rcases List.mem_cons.mp hd with rfl | hd
    · decide
    obtain ⟨n, hn, rfl⟩ := List.mem_map.mp hd
    exact digit_printable (Positional.isNumeral_digits (by decide) 4 unit n hn)

theorem dumpsAscii_encodable (v : Json) : (dumpsAscii v).Encodable := by
  intro c hc
  obtain ⟨d, -, hd⟩ := List.mem_flatMap.mp hc
  have hprint := asciify_printable d c hd
  simp only [isPrintable, Bool.and_eq_true, decide_eq_true_eq] at hprint
  simp only [Text.isSurrogate, Bool.and_eq_false_iff, decide_eq_false_iff_not]
  left
  omega

/-! ## Reading the escapes back -/

/-- The number four hexadecimal digits spell. -/
def unitOf (ds : Text) : Nat :=
  Positional.value 16 (ds.map fun c => (Bytes.hexNibble (Text.toChar c)).getD 0)

/-- The code units of a text whose escapes are spelled out. The escapes of control characters
were there before, and stay. -/
def readUnits : Text → List Nat
  | [] => []
  | [c] => [c.val]
  | c :: d :: rest =>
      if c = 0x5C then
        if d = Text.ofChar 'u' then
          match rest with
          | x :: y :: z :: w :: rest =>
              if unitOf [x, y, z, w] < 0x20 then
                [c.val, d.val, x.val, y.val, z.val, w.val] ++ readUnits rest
              else unitOf [x, y, z, w] :: readUnits rest
          | _ => []
        else c.val :: d.val :: readUnits rest
      else c.val :: readUnits (d :: rest)

theorem readUnits_plain {c : CodePoint} (hc : c ≠ 0x5C) (rest : Text) :
    readUnits (c :: rest) = c.val :: readUnits rest := by
  rcases rest with _ | ⟨d, _ | ⟨x, _ | ⟨y, _ | ⟨z, _ | ⟨w, rest⟩⟩⟩⟩⟩ <;> simp [readUnits, hc]

theorem readUnits_short {d : CodePoint} (hd : d ≠ Text.ofChar 'u') (rest : Text) :
    readUnits (0x5C :: d :: rest) = 0x5C :: d.val :: readUnits rest := by
  rcases rest with _ | ⟨x, _ | ⟨y, _ | ⟨z, _ | ⟨w, rest⟩⟩⟩⟩ <;> simp [readUnits, hd]

theorem unitOf_digits (unit : Nat) :
    unitOf ((Positional.digits 16 4 unit).map fun d => Text.ofChar (Bytes.hexDigit d))
      = unit % 16 ^ 4 := by
  have hread : ∀ d ∈ Positional.digits 16 4 unit,
      (Bytes.hexNibble (Text.toChar (Text.ofChar (Bytes.hexDigit d)))).getD 0 = d := by
    intro d hd
    rw [Text.toChar_ofChar,
      Bytes.hexNibble_hexDigit (Positional.isNumeral_digits (by decide) 4 unit d hd)]
    rfl
  rw [unitOf, List.map_map, ← Positional.value_digits]
  refine congrArg _ ((List.map_congr_left hread).trans (List.map_id _))

theorem readUnits_unicodeEscape {unit : Nat} (hlow : 0x20 ≤ unit) (hhigh : unit < 0x10000)
    (rest : Text) : readUnits (unicodeEscape unit ++ rest) = unit :: readUnits rest := by
  have hunit := unitOf_digits unit
  rw [Nat.mod_eq_of_lt (show unit < 16 ^ 4 by omega)] at hunit
  obtain ⟨x, y, z, w, hds⟩ : ∃ x y z w, (Positional.digits 16 4 unit).map
      (fun d => Text.ofChar (Bytes.hexDigit d)) = [x, y, z, w] := by
    exact ⟨_, _, _, _, rfl⟩
  rw [hds] at hunit
  rw [unicodeEscape, hds]
  change readUnits (0x5C :: Text.ofChar 'u' :: x :: y :: z :: w :: rest) = _
  rw [readUnits, if_pos rfl, if_pos rfl]
  simp only [hunit]
  rw [if_neg (by omega)]

/-- The escapes that `ensure_ascii` adds to the text can be read back, whatever follows. -/
def Legible (t : Text) : Prop :=
  ∀ rest, readUnits (t.flatMap asciify ++ rest) = t.flatMap utf16 ++ readUnits rest

theorem legible_nil : Legible [] := fun _ => rfl

theorem Legible.append {s t : Text} (hs : Legible s) (ht : Legible t) : Legible (s ++ t) := by
  intro rest
  rw [List.flatMap_append, List.flatMap_append, List.append_assoc, hs, ht, List.append_assoc]

theorem utf16_of_lt {c : CodePoint} (h : c.val < 0x10000) : utf16 c = [c.val] := if_pos h

theorem utf16_bounds (c : CodePoint) (h : 0x20 ≤ c.val) :
    ∀ unit ∈ utf16 c, 0x20 ≤ unit ∧ unit < 0x10000 := by
  intro unit hunit
  have hc := c.isLt
  unfold utf16 at hunit
  split at hunit
  · rename_i hlt
    rw [List.mem_singleton.mp hunit]
    exact ⟨h, hlt⟩
  · simp only [List.mem_cons, List.not_mem_nil, or_false] at hunit
    omega

theorem readUnits_escapes {units : List Nat} (h : ∀ unit ∈ units, 0x20 ≤ unit ∧ unit < 0x10000)
    (rest : Text) : readUnits (units.flatMap unicodeEscape ++ rest) = units ++ readUnits rest := by
  induction units with
  | nil => rfl
  | cons unit units ih =>
      obtain ⟨hlow, hhigh⟩ := h unit List.mem_cons_self
      rw [List.flatMap_cons, List.append_assoc, readUnits_unicodeEscape hlow hhigh,
        ih fun u hu => h u (List.mem_cons_of_mem unit hu), List.cons_append]

theorem legible_char {c : CodePoint} (hne : c ≠ 0x5C) (hlow : 0x20 ≤ c.val) : Legible [c] := by
  intro rest
  rw [List.flatMap_singleton, List.flatMap_singleton, asciify]
  split
  · rename_i hc
    simp only [isPrintable, Bool.and_eq_true, decide_eq_true_eq] at hc
    rw [utf16_of_lt (by omega), List.singleton_append, readUnits_plain hne, List.singleton_append]
  · exact readUnits_escapes (utf16_bounds c hlow) rest

theorem Legible.cons {c : CodePoint} {t : Text} (ht : Legible t) (hne : c ≠ 0x5C)
    (hlow : 0x20 ≤ c.val) : Legible (c :: t) :=
  (legible_char hne hlow).append ht

theorem legible_of_forall {t : Text} (h : ∀ c ∈ t, c ≠ 0x5C ∧ 0x20 ≤ c.val) : Legible t := by
  induction t with
  | nil => exact legible_nil
  | cons c t ih =>
      obtain ⟨hne, hlow⟩ := h c List.mem_cons_self
      exact (ih fun d hd => h d (List.mem_cons_of_mem c hd)).cons hne hlow

theorem legible_of_all {t : Text} (h : (t.all fun c => c != 0x5C && 0x20 ≤ c.val) = true) :
    Legible t :=
  legible_of_forall fun c hc => by simpa using List.all_eq_true.mp h c hc

/-- The letters of the short escapes. -/
def shortLetters : List Char := ['"', '\\', 'n', 'r', 't', 'f', 'b']

theorem shortLetters_plain : (shortLetters.all fun l => Text.ofChar l ≠ Text.ofChar 'u'
    ∧ asciify (Text.ofChar l) = [Text.ofChar l]
    ∧ utf16 (Text.ofChar l) = [(Text.ofChar l).val]) = true := by
  decide

/-- A short escape is a backslash and a letter that is not `u`. -/
theorem legible_short {c : CodePoint} {letter : Char} (h : shortEscape c = some letter) :
    Legible [0x5C, Text.ofChar letter] := by
  have hletter : letter ∈ shortLetters := by
    unfold shortEscape at h
    split_ifs at h <;> cases h <;> simp [shortLetters]
  have hplain := List.all_eq_true.mp shortLetters_plain letter hletter
  rw [decide_eq_true_eq] at hplain
  obtain ⟨hne, hascii, hunits⟩ := hplain
  intro rest
  simp only [List.flatMap_cons, List.flatMap_nil, List.append_nil, hascii, hunits]
  exact readUnits_short hne rest

/-- A control character is printed as an escape that is read back as it stands. -/
theorem legible_control : ∀ n < 0x20, Legible [0x5C, Text.ofChar 'u', Text.ofChar '0',
    Text.ofChar '0', Text.ofChar (Bytes.hexDigit (n / 16)), Text.ofChar (Bytes.hexDigit (n % 16))] := by
  intro n hn rest
  have hfacts : ∀ n < 0x20, asciify (Text.ofChar (Bytes.hexDigit (n / 16)))
        = [Text.ofChar (Bytes.hexDigit (n / 16))]
      ∧ asciify (Text.ofChar (Bytes.hexDigit (n % 16))) = [Text.ofChar (Bytes.hexDigit (n % 16))]
      ∧ utf16 (Text.ofChar (Bytes.hexDigit (n / 16)))
        = [(Text.ofChar (Bytes.hexDigit (n / 16))).val]
      ∧ utf16 (Text.ofChar (Bytes.hexDigit (n % 16)))
        = [(Text.ofChar (Bytes.hexDigit (n % 16))).val]
      ∧ unitOf [Text.ofChar '0', Text.ofChar '0', Text.ofChar (Bytes.hexDigit (n / 16)),
          Text.ofChar (Bytes.hexDigit (n % 16))] < 0x20 := by
    decide
  obtain ⟨hhigh, hlow, hhigh', hlow', hunit⟩ := hfacts n hn
  simp only [List.flatMap_cons, List.flatMap_nil, List.append_nil, hhigh, hlow, hhigh', hlow']
  change readUnits (0x5C :: Text.ofChar 'u' :: Text.ofChar '0' :: Text.ofChar '0' :: _ :: _ :: rest)
    = _
  rw [readUnits, if_pos rfl, if_pos rfl]
  simp only [hunit, if_true]
  rfl

theorem legible_escape (c : CodePoint) : Legible (escape c) := by
  unfold escape
  split
  · rename_i letter h
    exact legible_short h
  rename_i hshort
  split
  · rename_i hlt
    exact legible_control c.val hlt
  rename_i hlt
  refine legible_char (fun hc => ?_) (Nat.le_of_not_lt hlt)
  rw [hc] at hshort
  exact absurd hshort (by decide)

theorem legible_printString (t : Text) : Legible (printString t) := by
  have hbody : Legible (t.flatMap escape) := by
    induction t with
    | nil => exact legible_nil
    | cons c t ih => exact (legible_escape c).append ih
  exact (hbody.append (legible_of_all (by decide))).cons (by decide) (by decide)

theorem legible_printNat (n : Nat) : Legible (printNat n) := by
  refine legible_of_forall fun c hc => ?_
  have hdigit := isDigit_printNat c hc
  simp only [isDigit, Bool.and_eq_true, decide_eq_true_eq, Fin.le_def] at hdigit
  have h30 : (0x30 : CodePoint).val = 0x30 := rfl
  have h39 : (0x39 : CodePoint).val = 0x39 := rfl
  rw [h30, h39] at hdigit
  refine ⟨fun h => ?_, by omega⟩
  rw [h] at hdigit
  exact absurd hdigit.2 (by decide)

mutual

theorem legible_print (v : Json) : Legible (print v) := by
  match v with
  | null => exact legible_of_all (by decide)
  | bool true => exact legible_of_all (by decide)
  | bool false => exact legible_of_all (by decide)
  | int (.ofNat n) => exact legible_printNat n
  | int (.negSucc n) => exact (legible_printNat (n + 1)).cons (by decide) (by decide)
  | str t => exact legible_printString t
  | arr items =>
      exact ((legible_printItems items).append (legible_of_all (by decide))).cons
        (by decide) (by decide)
  | obj members =>
      exact ((legible_printMembers members).append (legible_of_all (by decide))).cons
        (by decide) (by decide)

theorem legible_printItems (items : List Json) : Legible (printItems items) := by
  match items with
  | [] => exact legible_nil
  | [item] => exact legible_print item
  | item :: next :: rest =>
      exact (legible_print item).append
        ((legible_printItems (next :: rest)).cons (by decide) (by decide))

theorem legible_printMembers (members : List (Text × Json)) : Legible (printMembers members) := by
  match members with
  | [] => exact legible_nil
  | [(key, value)] =>
      exact (legible_printString key).append ((legible_print value).cons (by decide) (by decide))
  | (key, value) :: next :: rest =>
      have htail := (legible_printMembers (next :: rest)).cons (c := 0x2C) (by decide) (by decide)
      have hvalue := ((legible_print value).cons (c := 0x3A) (by decide) (by decide)).append htail
      rw [printMembers]
      · rw [List.append_assoc]
        exact (legible_printString key).append hvalue
      · simp

end

/-! ## Code units of text without surrogates -/

theorem utf16_append {c d : CodePoint} {us vs : List Nat} (hc : Text.isSurrogate c = false)
    (hd : Text.isSurrogate d = false) (h : utf16 c ++ us = utf16 d ++ vs) : c = d ∧ us = vs := by
  simp only [Text.isSurrogate, Bool.and_eq_false_iff, decide_eq_false_iff_not] at hc hd
  unfold utf16 at h
  split at h <;> split at h <;>
    simp only [List.cons_append, List.nil_append, List.cons.injEq] at h
  · exact ⟨Fin.ext h.1, h.2⟩
  -- one unit against a pair: the pair starts with a surrogate
  · omega
  · omega
  · exact ⟨Fin.ext (by omega), h.2.2⟩

theorem utf16_injective {s t : Text} (hs : s.Encodable) (ht : t.Encodable)
    (h : s.flatMap utf16 = t.flatMap utf16) : s = t := by
  have hne : ∀ (c : CodePoint) (us : List Nat), utf16 c ++ us ≠ [] := by
    intro c us hnil
    unfold utf16 at hnil
    split at hnil <;> simp at hnil
  induction s generalizing t with
  | nil =>
      cases t with
      | nil => rfl
      | cons d t => exact absurd h.symm (hne d _)
  | cons c s ih =>
      cases t with
      | nil => exact absurd h (hne c _)
      | cons d t =>
          obtain ⟨hcd, hrest⟩ :=
            utf16_append (hs c List.mem_cons_self) (ht d List.mem_cons_self) h
          rw [hcd, ih (fun x hx => hs x (List.mem_cons_of_mem c hx))
            (fun x hx => ht x (List.mem_cons_of_mem d hx)) hrest]

/-! ## Values without surrogates -/

mutual

/-- No string and no key of the value holds a surrogate. -/
def Clean : Json → Prop
  | str t => t.Encodable
  | arr items => CleanItems items
  | obj members => CleanMembers members
  | _ => True

def CleanItems : List Json → Prop
  | [] => True
  | item :: rest => Clean item ∧ CleanItems rest

def CleanMembers : List (Text × Json) → Prop
  | [] => True
  | (key, value) :: rest => key.Encodable ∧ Clean value ∧ CleanMembers rest

end

theorem cleanMembers_iff {members : List (Text × Json)} :
    CleanMembers members ↔ ∀ m ∈ members, m.1.Encodable ∧ Clean m.2 := by
  induction members with
  | nil => simp [CleanMembers]
  | cons m members ih => simp [CleanMembers, ih, and_assoc]

mutual

theorem clean_sortKeys (v : Json) (h : Clean v) : Clean (sortKeys v) := by
  match v with
  | null => exact h
  | bool _ => exact h
  | int _ => exact h
  | str _ => exact h
  | arr items => exact clean_sortItems items h
  | obj members =>
      have hsorted := cleanMembers_iff.mp (clean_sortMembers members h)
      exact cleanMembers_iff.mpr fun m hm => hsorted m ((List.mem_insertionSort _).mp hm)

theorem clean_sortItems (items : List Json) (h : CleanItems items) :
    CleanItems (sortItems items) := by
  match items with
  | [] => exact h
  | item :: rest => exact ⟨clean_sortKeys item h.1, clean_sortItems rest h.2⟩

theorem clean_sortMembers (members : List (Text × Json)) (h : CleanMembers members) :
    CleanMembers (sortMembers members) := by
  match members with
  | [] => exact h
  | (_, value) :: rest => exact ⟨h.1, clean_sortKeys value h.2.1, clean_sortMembers rest h.2.2⟩

end

theorem encodable_cons {c : CodePoint} {t : Text} (hc : Text.isSurrogate c = false)
    (ht : t.Encodable) : Text.Encodable (c :: t) := by
  intro d hd
  rcases List.mem_cons.mp hd with rfl | hd
  · exact hc
  · exact ht d hd

theorem encodable_append {s t : Text} (hs : s.Encodable) (ht : t.Encodable) :
    Text.Encodable (s ++ t) := by
  intro d hd
  rcases List.mem_append.mp hd with hd | hd
  · exact hs d hd
  · exact ht d hd

theorem encodable_escape {c : CodePoint} (hc : Text.isSurrogate c = false) :
    Text.Encodable (escape c) := by
  by_cases hmem : c ∈ escaped
  · have hall : (escaped.all fun c => (escape c).all fun d => !Text.isSurrogate d) = true := by
      decide +kernel
    intro d hd
    simpa using List.all_eq_true.mp (List.all_eq_true.mp hall c hmem) d hd
  · rw [escape_of_not_mem hmem]
    exact encodable_cons hc fun d hd => by cases hd

theorem encodable_printString {t : Text} (ht : t.Encodable) : Text.Encodable (printString t) := by
  refine encodable_cons (by decide) (encodable_append (fun d hd => ?_) (by decide))
  obtain ⟨c, hc, hd⟩ := List.mem_flatMap.mp hd
  exact encodable_escape (ht c hc) d hd

theorem encodable_printNat (n : Nat) : Text.Encodable (printNat n) := by
  intro c hc
  have hdigit := isDigit_printNat c hc
  simp only [isDigit, Bool.and_eq_true, decide_eq_true_eq, Fin.le_def] at hdigit
  have h39 : (0x39 : CodePoint).val = 0x39 := rfl
  simp only [Text.isSurrogate, Bool.and_eq_false_iff, decide_eq_false_iff_not]
  omega

mutual

theorem encodable_print (v : Json) (h : Clean v) : Text.Encodable (print v) := by
  match v with
  | null => exact Text.encodable_ofString _
  | bool true => exact Text.encodable_ofString _
  | bool false => exact Text.encodable_ofString _
  | int (.ofNat n) => exact encodable_printNat n
  | int (.negSucc n) => exact encodable_cons (by decide) (encodable_printNat (n + 1))
  | str t => exact encodable_printString h
  | arr items =>
      exact encodable_cons (by decide) (encodable_append (encodable_printItems items h) (by decide))
  | obj members =>
      exact encodable_cons (by decide)
        (encodable_append (encodable_printMembers members h) (by decide))

theorem encodable_printItems (items : List Json) (h : CleanItems items) :
    Text.Encodable (printItems items) := by
  match items with
  | [] => exact fun d hd => by cases hd
  | [item] => exact encodable_print item h.1
  | item :: next :: rest =>
      exact encodable_append (encodable_print item h.1)
        (encodable_cons (by decide) (encodable_printItems (next :: rest) h.2))

theorem encodable_printMembers (members : List (Text × Json)) (h : CleanMembers members) :
    Text.Encodable (printMembers members) := by
  match members with
  | [] => exact fun d hd => by cases hd
  | [(key, value)] =>
      exact encodable_append (encodable_printString h.1)
        (encodable_cons (by decide) (encodable_print value h.2.1))
  | (key, value) :: next :: rest =>
      have htail := encodable_printMembers (next :: rest) h.2.2
      have hvalue := encodable_append (encodable_cons (c := 0x3A) (by decide)
        (encodable_print value h.2.1)) (encodable_cons (c := 0x2C) (by decide) htail)
      rw [printMembers]
      · rw [List.append_assoc]
        exact encodable_append (encodable_printString h.1) hvalue
      · simp

end

/-- **The ASCII text of a value without surrogates determines it**, up to the order of object
members. -/
theorem dumpsAscii_injective {v w : Json} (hv : Clean v) (hw : Clean w)
    (h : dumpsAscii v = dumpsAscii w) : sortKeys v = sortKeys w := by
  have hunits := legible_print (sortKeys v) []
  rw [List.append_nil, ← dumps, ← dumpsAscii, h] at hunits
  have hunits' := legible_print (sortKeys w) []
  rw [List.append_nil, ← dumps, ← dumpsAscii, hunits] at hunits'
  exact print_injective (utf16_injective (encodable_print _ (clean_sortKeys v hv))
    (encodable_print _ (clean_sortKeys w hw)) (List.append_cancel_right hunits'))

theorem mem_sortMembers {key : Text} {value : Json} {members : List (Text × Json)} :
    (key, value) ∈ sortMembers members ↔ ∃ v, (key, v) ∈ members ∧ sortKeys v = value := by
  induction members with
  | nil => simp [sortMembers]
  | cons member members ih =>
      obtain ⟨key', v'⟩ := member
      rw [sortMembers, List.mem_cons, ih, Prod.mk.injEq]
      constructor
      · rintro (⟨rfl, rfl⟩ | ⟨v, hv, rfl⟩)
        · exact ⟨v', List.mem_cons_self, rfl⟩
        · exact ⟨v, List.mem_cons_of_mem _ hv, rfl⟩
      · rintro ⟨v, hv, rfl⟩
        rcases List.mem_cons.mp hv with heq | hv
        · cases heq
          exact Or.inl ⟨rfl, rfl⟩
        · exact Or.inr ⟨v, hv, rfl⟩

/-- Objects that are equal after sorting agree at a key that the second one has once. -/
theorem object_agree {members members' : List (String × Json)} {key : String} {v w : Json}
    (h : sortKeys (object members) = sortKeys (object members')) (hv : (key, v) ∈ members)
    (hw : ∀ w', (key, w') ∈ members' → w' = w) : sortKeys v = sortKeys w := by
  rw [object, object, sortKeys, sortKeys] at h
  injection h with h
  have hmem : (Text.ofString key, sortKeys v) ∈ sortMembers (members'.map fun member =>
      (Text.ofString member.1, member.2)) := by
    rw [← List.mem_insertionSort fun a b => a.1 ≤ b.1, ← h, List.mem_insertionSort]
    exact mem_sortMembers.mpr ⟨v, List.mem_map.mpr ⟨(key, v), hv, rfl⟩, rfl⟩
  obtain ⟨w', hw', heq⟩ := mem_sortMembers.mp hmem
  obtain ⟨⟨key', w''⟩, hmember, hpair⟩ := List.mem_map.mp hw'
  rw [Prod.mk.injEq] at hpair
  obtain rfl := Text.ofString_injective hpair.1
  rw [← heq, ← hpair.2, hw w'' hmember]

theorem clean_object {members : List (String × Json)} :
    Clean (object members) ↔ ∀ member ∈ members, Clean member.2 := by
  rw [object, Clean, cleanMembers_iff, List.forall_mem_map]
  exact ⟨fun h m hm => (h m hm).2, fun h m hm => ⟨Text.encodable_ofString m.1, h m hm⟩⟩

theorem asciiBytes_injective {v w : Json} {bytes : Bytes} (hv : Clean v) (hw : Clean w)
    (h : asciiBytes v = .ok bytes) (h' : asciiBytes w = .ok bytes) : sortKeys v = sortKeys w := by
  have hok : ∀ {x : Json}, asciiBytes x = .ok bytes → (dumpsAscii x).utf8 = bytes := by
    intro x hx
    unfold asciiBytes at hx
    split at hx
    · cases hx
    · injection hx
  exact dumpsAscii_injective hv hw (Text.utf8_injective (dumpsAscii_encodable v)
    (dumpsAscii_encodable w) ((hok h).trans (hok h').symm))

end Json
