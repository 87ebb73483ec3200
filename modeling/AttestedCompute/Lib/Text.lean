import AttestedCompute.Lib.ByteString

/-!
# Strings of code points

A Python `str` is a list of code points, lone surrogates included. Encoding it as
UTF-8 is partial, because a surrogate has no encoding, and injective where it is
defined.
-/

/-- A Unicode code point, surrogates included. -/
abbrev CodePoint := Fin 0x110000

instance neZero_codePoints : NeZero 0x110000 := ⟨by decide⟩

/-- A string of code points. -/
abbrev Text := List CodePoint

namespace Text

/-- A code point that is no Unicode scalar value. -/
def isSurrogate (c : CodePoint) : Bool := 0xD800 ≤ c.val && c.val ≤ 0xDFFF

def ofChar (c : Char) : CodePoint :=
  ⟨c.toNat, by
    have h := c.valid
    have hv : c.toNat = c.val.toNat := rfl
    rcases h with h | h <;> omega⟩

def ofString (s : String) : Text := s.toList.map ofChar

/-- The scalar value of a code point, which must not be a surrogate. -/
def toChar (c : CodePoint) : Char := Char.ofNat c.val

/-- No lone surrogates. -/
def Encodable (t : Text) : Prop := ∀ c ∈ t, isSurrogate c = false

-- by running through the text: code points are finitely many, but too many to run through
instance (t : Text) : Decidable (Encodable t) :=
  decidable_of_iff ((t.all fun c => !isSurrogate c) = true) (by
    rw [List.all_eq_true]
    exact forall₂_congr fun c _ => by rw [Bool.not_eq_true'])

/-- The UTF-8 encoding of a text without lone surrogates. -/
def utf8 (t : Text) : Bytes := (t.map toChar).flatMap String.utf8EncodeChar

theorem toChar_injOn {c d : CodePoint} (hc : isSurrogate c = false) (hd : isSurrogate d = false)
    (h : toChar c = toChar d) : c = d := by
  have hvalid : ∀ {x : CodePoint}, isSurrogate x = false → (toChar x).toNat = x.val := by
    intro x hx
    have hscalar : Nat.isValidChar x.val := by
      have hlt := x.isLt
      simp only [isSurrogate, Bool.and_eq_false_iff, decide_eq_false_iff_not] at hx
      rcases hx with hx | hx
      · exact .inl (by omega)
      · exact .inr ⟨by omega, hlt⟩
    rw [toChar, Char.ofNat, dif_pos hscalar]
    rfl
  have hnat := congrArg Char.toNat h
  rw [hvalid hc, hvalid hd] at hnat
  exact Fin.ext hnat

theorem map_toChar_injOn {s t : Text} (hs : Encodable s) (ht : Encodable t)
    (h : s.map toChar = t.map toChar) : s = t := by
  induction s generalizing t with
  | nil => exact (List.map_eq_nil_iff.mp h.symm).symm
  | cons c s ih =>
      cases t with
      | nil => exact absurd h (by simp)
      | cons d t =>
          rw [List.map_cons, List.map_cons, List.cons.injEq] at h
          rw [toChar_injOn (hs c (by simp)) (ht d (by simp)) h.1,
            ih (fun x hx => hs x (by simp [hx])) (fun x hx => ht x (by simp [hx])) h.2]

/-- **UTF-8 is injective.** -/
theorem utf8_injective {s t : Text} (hs : Encodable s) (ht : Encodable t)
    (h : utf8 s = utf8 t) : s = t := by
  have hbytes : (s.map toChar).utf8Encode = (t.map toChar).utf8Encode := by
    unfold List.utf8Encode
    exact congrArg List.toByteArray h
  have hdecode := congrArg ByteArray.utf8Decode? hbytes
  rw [List.utf8Decode?_utf8Encode, List.utf8Decode?_utf8Encode] at hdecode
  exact map_toChar_injOn hs ht (by simpa using hdecode)

theorem toChar_ofChar (c : Char) : toChar (ofChar c) = c := Char.ofNat_toNat c

theorem map_toChar_ofString (s : String) : (ofString s).map toChar = s.toList := by
  rw [ofString, List.map_map]
  exact (List.map_congr_left fun c _ => toChar_ofChar c).trans (List.map_id _)

theorem ofString_append (s t : String) : ofString (s ++ t) = ofString s ++ ofString t := by
  rw [ofString, String.toList_append, List.map_append]
  rfl

theorem encodable_ofString (s : String) : Encodable (ofString s) := by
  intro c hc
  obtain ⟨d, -, rfl⟩ := List.mem_map.mp hc
  have hvalid := d.valid
  have hval : (ofChar d).val = d.val.toNat := rfl
  rw [isSurrogate, hval, Bool.and_eq_false_iff, decide_eq_false_iff_not, decide_eq_false_iff_not]
  rcases hvalid with h | h
  · exact Or.inl (by omega)
  · exact Or.inr (by omega)

/-- A text without lone surrogates is a string of characters. -/
theorem encodable_iff {t : Text} : Encodable t ↔ ∃ s, ofString s = t := by
  constructor
  · intro h
    refine ⟨String.ofList (t.map toChar), map_toChar_injOn (encodable_ofString _) h ?_⟩
    rw [map_toChar_ofString, String.toList_ofList]
  · rintro ⟨s, rfl⟩
    exact encodable_ofString s

theorem ofChar_injective : Function.Injective ofChar := by
  intro c d h
  have hval : (ofChar c).val = (ofChar d).val := congrArg Fin.val h
  exact Char.toNat_inj.mp hval

theorem ofString_injective : Function.Injective ofString := fun _ _ h =>
  String.toList_injective (List.map_injective_iff.mpr ofChar_injective h)

/-! ## Hexadecimal texts -/

/-- A lower-case hexadecimal digit. -/
def IsHex (c : CodePoint) : Prop := (0x30 ≤ c.val ∧ c.val ≤ 0x39) ∨ (0x61 ≤ c.val ∧ c.val ≤ 0x66)

theorem isHex_hexDigit {d : Nat} (h : d < 16) : IsHex (ofChar (Bytes.hexDigit d)) := by
  unfold IsHex
  interval_cases d <;> decide

theorem isHex_of_mem_hex {bytes : Bytes} {c : CodePoint} (h : c ∈ ofString (Bytes.hex bytes)) :
    IsHex c := by
  rw [ofString, Bytes.hex, String.toList_ofList, Bytes.hexChars, List.map_map] at h
  obtain ⟨d, hd, rfl⟩ := List.mem_map.mp h
  exact isHex_hexDigit (Bytes.isNumeral_nibbles _ d hd)

theorem length_ofString_hex (bytes : Bytes) : (ofString (Bytes.hex bytes)).length = 2 * bytes.length := by
  rw [ofString, List.length_map, String.length_toList, Bytes.length_hex]

theorem encodable_of_isHex {t : Text} (h : ∀ c ∈ t, IsHex c) : t.Encodable := by
  intro c hc
  have hdigit := h c hc
  unfold IsHex at hdigit
  simp only [isSurrogate, Bool.and_eq_false_iff, decide_eq_false_iff_not]
  omega

end Text
