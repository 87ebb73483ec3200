import AttestedCompute.Lib.JsonAscii
import AttestedCompute.Lib.PyText

/-!
# Reading JSON

The reader of the Python JSON codec, with its liberties: white space between tokens, the words `NaN`
and `Infinity`, surrogate escapes that are joined when they pair up and kept when they do not, and
an object in which a key comes twice. A float is kept as its token, because what it denotes and how
it is printed again are the business of whoever compares it.

`loads_dumps` is the round trip for values whose strings need no escapes.
-/

namespace JsonLoads

/-- What `json.loads` returns. -/
inductive Value where
  | null
  | bool (b : Bool)
  | int (n : Int)
  | float (token : Text)
  | str (t : Text)
  | arr (items : List Value)
  | obj (members : List (Text × Value))

/-! ## Tokens -/

def isSpace (c : CodePoint) : Bool := c = 0x20 || c = 0x09 || c = 0x0A || c = 0x0D

def skipSpace (t : Text) : Text := t.dropWhile isSpace

/-- The text after a character that must come next. -/
def expect (c : CodePoint) : Text → Option Text
  | [] => none
  | d :: rest => if d = c then some rest else none

/-- The text after a word. -/
def expectWord : Text → Text → Option Text
  | [], t => some t
  | c :: word, t => (expect c t).bind (expectWord word)

/-- A hexadecimal digit of either case. -/
def hexValue (c : CodePoint) : Option Nat :=
  if 0x41 ≤ c.val ∧ c.val ≤ 0x46 then some (c.val - 0x41 + 10)
  else Bytes.hexNibble (Text.toChar c)

/-- The four digits of a `\u` escape. -/
def readUnit : Text → Option (Nat × Text)
  | a :: b :: c :: d :: rest => do
      let a ← hexValue a
      let b ← hexValue b
      let c ← hexValue c
      let d ← hexValue d
      pure (((a * 16 + b) * 16 + c) * 16 + d, rest)
  | _ => none

/-- The second half of a surrogate pair, if it comes next. -/
def readLow (t : Text) : Option (Nat × Text) := do
  let t ← expect 0x5C t
  let t ← expect (Text.ofChar 'u') t
  let (low, t) ← readUnit t
  if 0xDC00 ≤ low ∧ low ≤ 0xDFFF then some (low, t) else none

/-- A `\u` escape; two surrogates that pair up are one character. -/
def readUnicode (t : Text) : Option (CodePoint × Text) := do
  let (unit, t) ← readUnit t
  if 0xD800 ≤ unit ∧ unit ≤ 0xDBFF then
    match readLow t with
    | some (low, t) => some (Fin.ofNat _ (0x10000 + (unit - 0xD800) * 0x400 + (low - 0xDC00)), t)
    | none => some (Fin.ofNat _ unit, t)
  else some (Fin.ofNat _ unit, t)

/-- The one-letter escapes. -/
def unescape (c : CodePoint) : Option CodePoint :=
  if c = 0x22 ∨ c = 0x5C ∨ c = 0x2F then some c
  else if c = Text.ofChar 'b' then some 0x08
  else if c = Text.ofChar 'f' then some 0x0C
  else if c = Text.ofChar 'n' then some 0x0A
  else if c = Text.ofChar 'r' then some 0x0D
  else if c = Text.ofChar 't' then some 0x09
  else none

/-- What follows a backslash. -/
def readEscape : Text → Option (CodePoint × Text)
  | [] => none
  | c :: rest =>
      if c = Text.ofChar 'u' then readUnicode rest else (unescape c).map fun d => (d, rest)

/-- A string after its opening quote. -/
def readString : Nat → Text → Option (Text × Text)
  | 0, _ => none
  | _ + 1, [] => none
  | fuel + 1, c :: rest =>
      if c = 0x22 then some ([], rest)
      else if c = 0x5C then do
        let (d, rest) ← readEscape rest
        let (t, rest) ← readString fuel rest
        pure (d :: t, rest)
      else if c < 0x20 then none
      else do
        let (t, rest) ← readString fuel rest
        pure (c :: t, rest)

def digitsValue (digits : Text) : Nat := digits.foldl (fun n c => 10 * n + (c.val - 0x30)) 0

/-- The fraction of a number; a point without digits is no part of it. -/
def readFraction (t : Text) : Text × Text :=
  match expect 0x2E t with
  | none => ([], t)
  | some after =>
      let digits := after.takeWhile Json.isDigit
      if digits = [] then ([], t) else (0x2E :: digits, after.drop digits.length)

/-- The exponent of a number. -/
def readExponent (t : Text) : Text × Text :=
  match t with
  | [] => ([], t)
  | e :: after =>
      let sign := after.takeWhile (fun c => c = 0x2B || c = 0x2D) |>.take 1
      let digits := (after.drop sign.length).takeWhile Json.isDigit
      if (e = Text.ofChar 'e' ∨ e = Text.ofChar 'E') ∧ digits ≠ [] then
        (e :: (sign ++ digits), after.drop (sign.length + digits.length))
      else ([], t)

/-- A number without its sign: an integer of at most 4300 digits, or a float. -/
def readUnsigned (sign t : Text) : Option (Value × Text) :=
  let run := t.takeWhile Json.isDigit
  let digits := if run.head? = some 0x30 then run.take 1 else run
  if digits = [] then none
  else
    let (fraction, rest) := readFraction (t.drop digits.length)
    let (exponent, rest) := readExponent rest
    if fraction = [] ∧ exponent = [] then
      if Py.maxStrDigits < digits.length then none
      else some (.int (if sign = [] then digitsValue digits else -digitsValue digits), rest)
    else some (.float (sign ++ digits ++ fraction ++ exponent), rest)

def readNumber (t : Text) : Option (Value × Text) :=
  match expect 0x2D t with
  | some after => readUnsigned [0x2D] after
  | none => readUnsigned [] t

/-- The words, each with its value. -/
def words : List (Text × Value) := [
  (Text.ofString "null", .null),
  (Text.ofString "true", .bool true),
  (Text.ofString "false", .bool false),
  (Text.ofString "NaN", .float (Text.ofString "NaN")),
  (Text.ofString "Infinity", .float (Text.ofString "Infinity")),
  (Text.ofString "-Infinity", .float (Text.ofString "-Infinity"))]

def readWord (t : Text) : Option (Value × Text) :=
  words.findSome? fun word => (expectWord word.1 t).map fun rest => (word.2, rest)

/-! ## Values -/

/-- `dict(pairs)`: a key that comes again keeps its place and takes the later value. -/
def ofPairs (pairs : List (Text × Value)) : List (Text × Value) :=
  pairs.foldl (fun members pair =>
    if members.any (·.1 = pair.1) then
      members.map fun member => if member.1 = pair.1 then pair else member
    else members ++ [pair]) []

mutual

/-- The value at the front. -/
def readValue : Nat → Text → Option (Value × Text)
  | 0, _ => none
  | _ + 1, [] => none
  | fuel + 1, c :: rest =>
      if c = 0x22 then (readString (rest.length + 1) rest).map fun p => (.str p.1, p.2)
      else if c = 0x7B then
        match expect 0x7D (skipSpace rest) with
        | some after => some (.obj [], after)
        | none => (readMembers fuel (skipSpace rest)).map fun p => (.obj (ofPairs p.1), p.2)
      else if c = 0x5B then
        match expect 0x5D (skipSpace rest) with
        | some after => some (.arr [], after)
        | none => (readItems fuel (skipSpace rest)).map fun p => (.arr p.1, p.2)
      else (readWord (c :: rest)).orElse fun _ => readNumber (c :: rest)

/-- The items of an array from its first one on, with the closing bracket. -/
def readItems : Nat → Text → Option (List Value × Text)
  | 0, _ => none
  | fuel + 1, t => do
      let (item, t) ← readValue fuel t
      match expect 0x5D (skipSpace t) with
      | some after => some ([item], after)
      | none => do
          let t ← expect 0x2C (skipSpace t)
          let (items, t) ← readItems fuel (skipSpace t)
          pure (item :: items, t)

/-- The members of an object from its first one on, with the closing bracket. -/
def readMembers : Nat → Text → Option (List (Text × Value) × Text)
  | 0, _ => none
  | fuel + 1, t => do
      let t ← expect 0x22 t
      let (key, t) ← readString (t.length + 1) t
      let t ← expect 0x3A (skipSpace t)
      let (value, t) ← readValue fuel (skipSpace t)
      match expect 0x7D (skipSpace t) with
      | some after => some ([(key, value)], after)
      | none => do
          let t ← expect 0x2C (skipSpace t)
          let (members, t) ← readMembers fuel (skipSpace t)
          pure ((key, value) :: members, t)

end

/-- `json.loads` of a string, `none` where it raises. -/
def loads (t : Text) : Option Value := do
  let (value, rest) ← readValue (t.length + 1) (skipSpace t)
  if skipSpace rest = [] then some value else none

/-! ## Printing again -/

/-- What a program knows of floats: how `json.dumps` spells the float of a token, and whether that
float is equal to an integer. -/
structure Floats where
  spelling : Text → Text
  equals : Text → Int → Bool

mutual

/-- The compact text of a value, members in the order given. -/
def print (floats : Floats) : Value → Text
  | .null => Text.ofString "null"
  | .bool true => Text.ofString "true"
  | .bool false => Text.ofString "false"
  | .int n => Json.printInt n
  | .float token => floats.spelling token
  | .str t => Json.printString t
  | .arr items => 0x5B :: (printItems floats items ++ [0x5D])
  | .obj members => 0x7B :: (printMembers floats members ++ [0x7D])

def printItems (floats : Floats) : List Value → Text
  | [] => []
  | [item] => print floats item
  | item :: rest => print floats item ++ 0x2C :: printItems floats rest

def printMembers (floats : Floats) : List (Text × Value) → Text
  | [] => []
  | [(key, value)] => Json.printString key ++ 0x3A :: print floats value
  | (key, value) :: rest =>
      Json.printString key ++ 0x3A :: print floats value ++ 0x2C :: printMembers floats rest

end

mutual

/-- The same value with the members of every object sorted by key. -/
def sortKeys : Value → Value
  | .arr items => .arr (sortItems items)
  | .obj members => .obj ((sortMembers members).insertionSort fun a b => a.1 ≤ b.1)
  | v => v

def sortItems : List Value → List Value
  | [] => []
  | item :: rest => sortKeys item :: sortItems rest

def sortMembers : List (Text × Value) → List (Text × Value)
  | [] => []
  | (key, value) :: rest => (key, sortKeys value) :: sortMembers rest

end

/-- `json.dumps(value, ensure_ascii=True, sort_keys=True, separators=(",", ":"))`, as bytes. What
`loads` returned has no integer that is too long to print. -/
def dumpsAscii (floats : Floats) (v : Value) : Bytes :=
  Text.utf8 ((print floats (sortKeys v)).flatMap Json.asciify)

mutual

/-- A value without floats. -/
def ofJson : Json → Value
  | .null => .null
  | .bool b => .bool b
  | .int n => .int n
  | .str t => .str t
  | .arr items => .arr (ofItems items)
  | .obj members => .obj (ofMembers members)

def ofItems : List Json → List Value
  | [] => []
  | item :: rest => ofJson item :: ofItems rest

def ofMembers : List (Text × Json) → List (Text × Value)
  | [] => []
  | (key, value) :: rest => (key, ofJson value) :: ofMembers rest

end

/-! ## Comparing with an expected value -/

/-- The number a Boolean is equal to. -/
def ofBool (b : Bool) : Int := if b then 1 else 0

mutual

/-- `==` of an expected value and one that was read: numbers are equal whatever their types, and
members are equal in any order. -/
def equals (floats : Floats) : Json → Value → Bool
  | .null, .null => true
  | .bool b, .bool c => b = c
  | .bool b, .int n => ofBool b = n
  | .bool b, .float token => floats.equals token (ofBool b)
  | .int m, .int n => m = n
  | .int m, .bool c => m = ofBool c
  | .int m, .float token => floats.equals token m
  | .str s, .str t => s = t
  | .arr items, .arr values => equalsItems floats items values
  | .obj members, .obj values =>
      values.length = members.length && equalsMembers floats members values
  | _, _ => false

def equalsItems (floats : Floats) : List Json → List Value → Bool
  | [], [] => true
  | item :: rest, value :: values => equals floats item value && equalsItems floats rest values
  | _, _ => false

/-- Every expected member has an equal one under its key. -/
def equalsMembers (floats : Floats) : List (Text × Json) → List (Text × Value) → Bool
  | [], _ => true
  | (key, item) :: rest, values =>
      equals floats item (((values.find? fun m => m.1 = key).map Prod.snd).getD .null)
        && (values.any fun m => m.1 = key) && equalsMembers floats rest values

end

/-- A byte string in ASCII as a text. -/
def asciiText (bytes : Bytes) : Option Text :=
  if bytes.all (· < 128) then some (bytes.map fun b => Fin.ofNat _ b.toNat) else none

/-! ## Values without floats print as they did -/

mutual

theorem print_ofJson (floats : Floats) (v : Json) : print floats (ofJson v) = Json.print v := by
  match v with
  | .null => rfl
  | .bool true => rfl
  | .bool false => rfl
  | .int _ => rfl
  | .str _ => rfl
  | .arr items => rw [ofJson, print, printItems_ofItems floats items, Json.print]
  | .obj members => rw [ofJson, print, printMembers_ofMembers floats members, Json.print]

theorem printItems_ofItems (floats : Floats) (items : List Json) :
    printItems floats (ofItems items) = Json.printItems items := by
  match items with
  | [] => rfl
  | [item] => exact print_ofJson floats item
  | item :: next :: rest =>
      show print floats (ofJson item) ++ 0x2C :: printItems floats (ofItems (next :: rest)) =
        Json.print item ++ 0x2C :: Json.printItems (next :: rest)
      rw [printItems_ofItems floats (next :: rest), print_ofJson floats item]

theorem printMembers_ofMembers (floats : Floats) (members : List (Text × Json)) :
    printMembers floats (ofMembers members) = Json.printMembers members := by
  match members with
  | [] => rfl
  | [(key, value)] =>
      show Json.printString key ++ 0x3A :: print floats (ofJson value) = _
      rw [print_ofJson floats value]
      rfl
  | (key, value) :: (key', value') :: rest =>
      show Json.printString key ++ 0x3A :: print floats (ofJson value)
          ++ 0x2C :: printMembers floats (ofMembers ((key', value') :: rest)) =
        Json.printString key ++ 0x3A :: Json.print value
          ++ 0x2C :: Json.printMembers ((key', value') :: rest)
      rw [printMembers_ofMembers floats ((key', value') :: rest), print_ofJson floats value]

end

theorem ofMembers_eq (members : List (Text × Json)) :
    ofMembers members = members.map fun member => (member.1, ofJson member.2) := by
  induction members with
  | nil => rfl
  | cons member members ih => rw [ofMembers, ih, List.map_cons]

mutual

theorem sortKeys_ofJson (v : Json) : sortKeys (ofJson v) = ofJson (Json.sortKeys v) := by
  match v with
  | .null => rfl
  | .bool _ => rfl
  | .int _ => rfl
  | .str _ => rfl
  | .arr items => rw [ofJson, sortKeys, sortItems_ofItems items, Json.sortKeys, ofJson]
  | .obj members =>
      rw [ofJson, sortKeys, sortMembers_ofMembers members, Json.sortKeys, ofJson, ofMembers_eq,
        ofMembers_eq]
      refine congrArg Value.obj (Eq.symm ?_)
      exact List.map_insertionSort _ _ (fun member : Text × Json => (member.1, ofJson member.2)) _
        fun _ _ _ _ => Iff.rfl

theorem sortItems_ofItems (items : List Json) :
    sortItems (ofItems items) = ofItems (Json.sortItems items) := by
  match items with
  | [] => rfl
  | item :: rest =>
      rw [ofItems, sortItems, sortKeys_ofJson item, sortItems_ofItems rest, Json.sortItems, ofItems]

theorem sortMembers_ofMembers (members : List (Text × Json)) :
    sortMembers (ofMembers members) = ofMembers (Json.sortMembers members) := by
  match members with
  | [] => rfl
  | (key, value) :: rest =>
      rw [ofMembers, sortMembers, sortKeys_ofJson value, sortMembers_ofMembers rest,
        Json.sortMembers, ofMembers]

end

theorem dumpsAscii_ofJson (floats : Floats) (v : Json) :
    dumpsAscii floats (ofJson v) = (Json.dumpsAscii v).utf8 := by
  rw [dumpsAscii, sortKeys_ofJson, print_ofJson, Json.dumpsAscii, Json.dumps]

/-! ## Reading what was printed -/

/-- Texts that are printed as they are. -/
def PlainText (t : Text) : Prop := ∀ c ∈ t, Json.isPrintable c = true ∧ c ≠ 0x22 ∧ c ≠ 0x5C

mutual

/-- Strings that are printed as they are, integers that are short enough to be read, and in every
object keys that differ. -/
def Plain : Json → Prop
  | .int n => n.natAbs < 10 ^ 4300
  | .str t => PlainText t
  | .arr items => PlainItems items
  | .obj members => PlainMembers members ∧ (members.map Prod.fst).Nodup
  | _ => True

def PlainItems : List Json → Prop
  | [] => True
  | item :: rest => Plain item ∧ PlainItems rest

def PlainMembers : List (Text × Json) → Prop
  | [] => True
  | (key, value) :: rest => PlainText key ∧ Plain value ∧ PlainMembers rest

end

theorem expect_cons (c : CodePoint) (rest : Text) : expect c (c :: rest) = some rest := if_pos rfl

theorem expect_of_ne {c d : CodePoint} (h : d ≠ c) (rest : Text) : expect c (d :: rest) = none :=
  if_neg h

theorem PlainText.escape {t : Text} (h : PlainText t) : t.flatMap Json.escape = t := by
  induction t with
  | nil => rfl
  | cons c t ih =>
      obtain ⟨⟨hprintable, hquote, hslash⟩, ht⟩ := List.forall_mem_cons.mp h
      have hrange : 0x20 ≤ c.val ∧ c.val ≤ 0x7E := by simpa [Json.isPrintable] using hprintable
      have hshort : Json.shortEscape c = none := by
        simp only [Json.shortEscape]
        rw [if_neg hquote, if_neg hslash, if_neg, if_neg, if_neg, if_neg, if_neg]
        all_goals
          rintro rfl
          exact absurd hrange.1 (by decide)
      have hlow : ¬ c < 0x20 := by
        rw [Fin.lt_def]
        exact not_lt.mpr hrange.1
      have hone : Json.escape c = [c] := by
        rw [Json.escape, hshort]
        exact if_neg hlow
      rw [List.flatMap_cons, hone, ih ht]
      rfl

theorem readString_plain {t rest : Text} {fuel : Nat} (h : PlainText t) (hfuel : t.length < fuel) :
    readString fuel (t ++ 0x22 :: rest) = some (t, rest) := by
  induction t generalizing fuel with
  | nil =>
      obtain ⟨fuel, rfl⟩ := Nat.exists_eq_succ_of_ne_zero hfuel.ne'
      exact if_pos rfl
  | cons c t ih =>
      obtain ⟨fuel, rfl⟩ := Nat.exists_eq_succ_of_ne_zero (Nat.ne_of_gt (Nat.zero_lt_of_lt hfuel))
      obtain ⟨⟨hprintable, hquote, hslash⟩, ht⟩ := List.forall_mem_cons.mp h
      have hrange : 0x20 ≤ c.val ∧ c.val ≤ 0x7E := by simpa [Json.isPrintable] using hprintable
      have hlow : ¬ c < 0x20 := by
        rw [Fin.lt_def]
        exact not_lt.mpr hrange.1
      rw [List.cons_append, readString, if_neg hquote, if_neg hslash, if_neg hlow,
        ih ht (by simpa using hfuel)]
      rfl

/-! ### Integers -/

/-- The text goes on, if at all, with a separator or a closing bracket. -/
def Ends (rest : Text) : Prop := ∀ c ∈ rest.head?, c = 0x2C ∨ c = 0x5D ∨ c = 0x7D

theorem Ends.stops {rest : Text} (h : Ends rest) : Json.Stops rest := by
  intro c hc
  rcases h c hc with rfl | rfl | rfl
  · decide
  · decide
  · decide

theorem digitsValue_printNat (n : Nat) : digitsValue (Json.printNat n) = n := by
  have h := Nat.ofDigitChars_toDigits (b := 10) (n := n) (by norm_num) le_rfl
  rw [Nat.ofDigitChars_eq_foldl] at h
  rw [digitsValue, Json.printNat, List.foldl_map]
  exact h

theorem head_toDigits {n : Nat} (h : 0 < n) : (Nat.toDigits 10 n).head? ≠ some '0' := by
  induction n using Nat.base_induction 10 (by norm_num) with
  | single m hm =>
      rw [Nat.toDigits_of_lt_base hm]
      interval_cases m <;> decide
  | digit m k hk hm ih =>
      rw [← Nat.toDigits_append_toDigits (by norm_num) hm hk, List.head?_append_of_ne_nil _
        Nat.toDigits_ne_nil]
      exact ih hm

theorem length_printNat {n : Nat} (h : n < 10 ^ 4300) :
    (Json.printNat n).length ≤ Py.maxStrDigits := by
  rw [Json.printNat, List.length_map, Py.maxStrDigits]
  exact (Nat.length_toDigits_le_iff (by decide : 1 < 10) (by norm_num)).mpr h

/-- Nothing is cut off for a leading zero. -/
theorem leading_printNat (n : Nat) :
    (if (Json.printNat n).head? = some 0x30 then (Json.printNat n).take 1 else Json.printNat n) =
      Json.printNat n := by
  rcases Nat.eq_zero_or_pos n with rfl | hpos
  · rfl
  · refine if_neg fun hzero => head_toDigits hpos ?_
    rw [Json.printNat, List.head?_map, Option.map_eq_some_iff] at hzero
    obtain ⟨c, hc, hval⟩ := hzero
    have hzero : Text.ofChar c = Text.ofChar '0' := hval
    rw [hc, Text.ofChar_injective hzero]

theorem readFraction_ends {rest : Text} (h : Ends rest) : readFraction rest = ([], rest) := by
  cases rest with
  | nil => rfl
  | cons c rest =>
      rw [readFraction, expect_of_ne]
      rintro rfl
      rcases h 0x2E rfl with h | h | h <;> exact absurd h (by decide)

theorem readExponent_ends {rest : Text} (h : Ends rest) : readExponent rest = ([], rest) := by
  cases rest with
  | nil => rfl
  | cons c rest =>
      rw [readExponent]
      refine if_neg fun hletter => ?_
      rcases h c rfl with rfl | rfl | rfl <;> exact absurd hletter.1 (by decide)

theorem readUnsigned_printNat {n : Nat} {sign rest : Text} (hn : n < 10 ^ 4300) (h : Ends rest) :
    readUnsigned sign (Json.printNat n ++ rest) =
      some (.int (if sign = [] then n else -n), rest) := by
  unfold readUnsigned
  simp only [Json.takeWhile_digits Json.isDigit_printNat h.stops, leading_printNat,
    List.drop_left, readFraction_ends h, readExponent_ends h, digitsValue_printNat, and_self,
    if_true]
  rw [if_neg (Json.printNat_ne_nil n), if_neg (not_lt.mpr (length_printNat hn))]

theorem readNumber_printInt {n : Int} {rest : Text} (hn : n.natAbs < 10 ^ 4300) (h : Ends rest) :
    readNumber (Json.printInt n ++ rest) = some (.int n, rest) := by
  cases n with
  | ofNat n =>
      obtain ⟨c, tail, hcons⟩ := List.exists_cons_of_ne_nil (Json.printNat_ne_nil n)
      have hdigit : Json.isDigit c = true := Json.isDigit_printNat c (by rw [hcons]; simp)
      have hminus : c ≠ 0x2D := by
        rintro rfl
        exact absurd hdigit (by decide)
      have hread := @readUnsigned_printNat n [] rest hn h
      rw [Json.printInt, readNumber]
      rw [hcons] at hread ⊢
      rw [List.cons_append, expect_of_ne hminus]
      exact hread
  | negSucc n =>
      rw [Json.printInt, readNumber, List.cons_append, expect_cons]
      exact @readUnsigned_printNat (n + 1) [0x2D] rest hn h

/-! ### Words -/

theorem expectWord_append (word rest : Text) : expectWord word (word ++ rest) = some rest := by
  induction word with
  | nil => rfl
  | cons c word ih =>
      rw [List.cons_append, expectWord, expect_cons]
      exact ih

theorem readWord_null (rest : Text) :
    readWord (Text.ofString "null" ++ rest) = some (.null, rest) := by
  rw [readWord, words, List.findSome?_cons, expectWord_append]
  rfl

theorem readWord_true (rest : Text) :
    readWord (Text.ofString "true" ++ rest) = some (.bool true, rest) := by
  have hnull : expectWord (Text.ofString "null") (Text.ofString "true" ++ rest) = none := rfl
  rw [readWord, words, List.findSome?_cons, hnull, List.findSome?_cons, expectWord_append]
  rfl

theorem readWord_false (rest : Text) :
    readWord (Text.ofString "false" ++ rest) = some (.bool false, rest) := by
  have hnull : expectWord (Text.ofString "null") (Text.ofString "false" ++ rest) = none := rfl
  have htrue : expectWord (Text.ofString "true") (Text.ofString "false" ++ rest) = none := rfl
  rw [readWord, words, List.findSome?_cons, hnull, List.findSome?_cons, htrue, List.findSome?_cons,
    expectWord_append]
  rfl

/-- A number is no word. -/
theorem readWord_printInt (n : Int) (rest : Text) : readWord (Json.printInt n ++ rest) = none := by
  have hdigit : ∀ {c : CodePoint} {tail : Text}, Json.isDigit c = true → ∀ word ∈ words,
      expectWord word.1 (c :: tail) = none := by
    intro c tail hc word hword
    simp only [words, List.mem_cons, List.not_mem_nil, or_false] at hword
    rcases hword with rfl | rfl | rfl | rfl | rfl | rfl
    all_goals
      refine congrArg (Option.bind · _) (expect_of_ne ?_ tail)
      rintro rfl
      exact absurd hc (by decide)
  have hnat : ∀ m : Nat, ∃ c tail, Json.printNat m ++ rest = c :: tail ∧ Json.isDigit c = true := by
    intro m
    obtain ⟨c, tail, hcons⟩ := List.exists_cons_of_ne_nil (Json.printNat_ne_nil m)
    exact ⟨c, tail ++ rest, by rw [hcons]; rfl, Json.isDigit_printNat c (by rw [hcons]; simp)⟩
  cases n with
  | ofNat n =>
      obtain ⟨c, tail, hcons, hc⟩ := hnat n
      rw [Json.printInt, hcons, readWord, List.findSome?_eq_none_iff]
      intro word hword
      rw [hdigit hc word hword]
      rfl
  | negSucc n =>
      -- after the sign a digit, and no `I`
      obtain ⟨c, tail, hcons, hc⟩ := hnat (n + 1)
      rw [Json.printInt, List.cons_append, hcons, readWord, List.findSome?_eq_none_iff]
      intro word hword
      have hletter : c ≠ Text.ofChar 'I' := by
        rintro rfl
        exact absurd hc (by decide)
      simp only [words, List.mem_cons, List.not_mem_nil, or_false] at hword
      rcases hword with rfl | rfl | rfl | rfl | rfl | rfl
      · rfl
      · rfl
      · rfl
      · rfl
      · rfl
      · refine congrArg (Option.map _) (congrArg (Option.bind · _) (expect_of_ne hletter tail))

/-! ### Values -/

theorem skipSpace_cons {c : CodePoint} (h : isSpace c = false) (rest : Text) :
    skipSpace (c :: rest) = c :: rest := by
  rw [skipSpace, List.dropWhile_cons, if_neg (by rw [h]; exact Bool.false_ne_true)]

theorem skipSpace_ends {rest : Text} (h : Ends rest) : skipSpace rest = rest := by
  cases rest with
  | nil => rfl
  | cons c rest =>
      refine skipSpace_cons ?_ rest
      rcases h c rfl with rfl | rfl | rfl <;> rfl

/-- A value does not begin with white space, or with a closing bracket. -/
theorem print_begins (v : Json) (rest : Text) : ∃ c tail, Json.print v ++ rest = c :: tail ∧
    isSpace c = false ∧ c ≠ 0x5D := by
  obtain ⟨c, tail, hcons, hkind, hne, _⟩ := Json.print_head v
  refine ⟨c, tail ++ rest, by rw [hcons]; rfl, ?_, hne⟩
  rw [Bool.eq_false_iff]
  intro hspace
  have hwhite : c = 0x20 ∨ c = 0x09 ∨ c = 0x0A ∨ c = 0x0D := by
    simpa [isSpace, or_assoc] using hspace
  -- white space announces no value
  have hletter : ∀ letter : CodePoint, isSpace letter = false → c ≠ letter := by
    rintro letter hl rfl
    rw [hl] at hspace
    cases hspace
  have hword : Json.kindOf c = Json.Kind.word c := by
    rcases hwhite with rfl | rfl | rfl | rfl <;> rfl
  rw [hword] at hkind
  cases v with
  | null => exact hletter _ rfl (Json.Kind.word.inj hkind)
  | bool b => cases b <;> exact hletter _ rfl (Json.Kind.word.inj hkind)
  | int n => cases hkind
  | str t => cases hkind
  | arr items => cases hkind
  | obj members => cases hkind

theorem ends_cons {c : CodePoint} (h : c = 0x2C ∨ c = 0x5D ∨ c = 0x7D) (rest : Text) :
    Ends (c :: rest) := by
  intro d hd
  rw [List.head?_cons, Option.mem_some_iff] at hd
  exact hd ▸ h

/-- Keys that differ are kept in their order. -/
theorem ofPairs_of_nodup {pairs : List (Text × Value)} (h : (pairs.map Prod.fst).Nodup) :
    ofPairs pairs = pairs := by
  unfold ofPairs
  induction pairs using List.reverseRecOn with
  | nil => rfl
  | append_singleton pairs pair ih =>
      rw [List.map_append, List.map_singleton, List.nodup_append] at h
      obtain ⟨hpairs, _, hdisjoint⟩ := h
      rw [List.foldl_append, ih hpairs, List.foldl_cons, List.foldl_nil, if_neg]
      intro hany
      obtain ⟨member, hmember, heq⟩ := List.any_eq_true.mp hany
      exact hdisjoint _ (List.mem_map_of_mem hmember) pair.1 List.mem_cons_self
        (of_decide_eq_true heq)

/-- A value that is no string and no container is a word or a number. -/
theorem readValue_scalar {c : CodePoint} (hc : c ≠ 0x22 ∧ c ≠ 0x7B ∧ c ≠ 0x5B) (fuel : Nat)
    (tail : Text) :
    readValue (fuel + 1) (c :: tail) =
      (readWord (c :: tail)).orElse fun _ => readNumber (c :: tail) := by
  rw [readValue, if_neg hc.1, if_neg hc.2.1, if_neg hc.2.2]

theorem readValue_printInt {n : Int} {rest : Text} (hn : n.natAbs < 10 ^ 4300) (h : Ends rest)
    (fuel : Nat) :
    readValue (fuel + 1) (Json.printInt n ++ rest) = some (.int n, rest) := by
  have hword := readWord_printInt n rest
  have hnumber := readNumber_printInt hn h
  obtain ⟨c, tail, hcons, hkind, _⟩ := Json.print_head (.int n)
  have hc : c ≠ 0x22 ∧ c ≠ 0x7B ∧ c ≠ 0x5B := by
    refine ⟨?_, ?_, ?_⟩
    all_goals
      rintro rfl
      cases hkind
  rw [Json.print] at hcons
  rw [hcons, List.cons_append] at hword hnumber ⊢
  rw [readValue_scalar hc, hword, hnumber]
  rfl

theorem readItems_close {fuel : Nat} {t rest : Text} {item : Value}
    (h : readValue fuel t = some (item, 0x5D :: rest)) :
    readItems (fuel + 1) t = some ([item], rest) := by
  have hclose := skipSpace_ends (ends_cons (Or.inr (Or.inl rfl)) rest)
  simp only [readItems, h, bind, Option.bind_some, hclose, expect_cons]

theorem readItems_comma {fuel : Nat} {t rest after : Text} {item : Value} {items : List Value}
    (h : readValue fuel t = some (item, 0x2C :: rest)) (hspace : skipSpace rest = rest)
    (hmore : readItems fuel rest = some (items, after)) :
    readItems (fuel + 1) t = some (item :: items, after) := by
  have hcomma := skipSpace_ends (ends_cons (Or.inl rfl) rest)
  have hclose : expect 0x5D (0x2C :: rest) = none := expect_of_ne (by decide) rest
  simp only [readItems, h, bind, Option.bind_some, hcomma, hclose, expect_cons, hspace, hmore, pure]

theorem readMembers_close {fuel : Nat} {t rest : Text} {key : Text} {value : Value}
    (hkey : PlainText key) (hspace : skipSpace t = t)
    (h : readValue fuel t = some (value, 0x7D :: rest)) :
    readMembers (fuel + 1) (Json.printString key ++ 0x3A :: t) = some ([(key, value)], rest) := by
  have hclose := skipSpace_ends (ends_cons (Or.inr (Or.inr rfl)) rest)
  have hstring : readString ((key ++ 0x22 :: 0x3A :: t).length + 1) (key ++ 0x22 :: 0x3A :: t) =
      some (key, 0x3A :: t) := readString_plain hkey (by simp)
  have hcolon : skipSpace (0x3A :: t) = 0x3A :: t := skipSpace_cons rfl t
  rw [Json.printString, hkey.escape, List.cons_append, List.append_assoc, List.singleton_append]
  simp only [readMembers, expect_cons, bind, Option.bind_some, hstring, hcolon, hspace, h, hclose]

theorem readMembers_comma {fuel : Nat} {t rest after : Text} {key : Text} {value : Value}
    {members : List (Text × Value)} (hkey : PlainText key) (hspace : skipSpace t = t)
    (h : readValue fuel t = some (value, 0x2C :: rest)) (hnext : skipSpace rest = rest)
    (hmore : readMembers fuel rest = some (members, after)) :
    readMembers (fuel + 1) (Json.printString key ++ 0x3A :: t) =
      some ((key, value) :: members, after) := by
  have hcomma := skipSpace_ends (ends_cons (Or.inl rfl) rest)
  have hclose : expect 0x7D (0x2C :: rest) = none := expect_of_ne (by decide) rest
  have hstring : readString ((key ++ 0x22 :: 0x3A :: t).length + 1) (key ++ 0x22 :: 0x3A :: t) =
      some (key, 0x3A :: t) := readString_plain hkey (by simp)
  have hcolon : skipSpace (0x3A :: t) = 0x3A :: t := skipSpace_cons rfl t
  rw [Json.printString, hkey.escape, List.cons_append, List.append_assoc, List.singleton_append]
  simp only [readMembers, expect_cons, bind, Option.bind_some, hstring, hcolon, hspace, h, hcomma,
    hclose, hnext, hmore, pure]

theorem skipSpace_print (v : Json) (rest : Text) :
    skipSpace (Json.print v ++ rest) = Json.print v ++ rest := by
  obtain ⟨c, tail, hcons, hspace, _⟩ := print_begins v rest
  rw [hcons]
  exact skipSpace_cons hspace tail

/-- The items of an array begin like its first item. -/
theorem printItems_cons (item : Json) (items : List Json) (rest : Text) :
    ∃ rest', Json.printItems (item :: items) ++ rest = Json.print item ++ rest' := by
  cases items with
  | nil => exact ⟨rest, rfl⟩
  | cons next items => exact ⟨_, List.append_assoc _ _ _⟩

/-- The members of an object begin with a quote. -/
theorem printMembers_cons (member : Text × Json) (members : List (Text × Json)) (rest : Text) :
    ∃ tail, Json.printMembers (member :: members) ++ rest = 0x22 :: tail := by
  obtain ⟨key, value⟩ := member
  cases members with
  | nil => exact ⟨_, rfl⟩
  | cons next members => exact ⟨_, rfl⟩

mutual

theorem readValue_print (v : Json) (hv : Plain v) (fuel : Nat) (rest : Text)
    (hfuel : (Json.print v).length < fuel) (hrest : Ends rest) :
    readValue fuel (Json.print v ++ rest) = some (ofJson v, rest) := by
  obtain ⟨n, hn⟩ := Nat.exists_eq_succ_of_ne_zero (Nat.ne_of_gt (Nat.zero_lt_of_lt hfuel))
  rw [hn] at hfuel ⊢
  match v with
  | .null =>
      refine (readValue_scalar (by decide) n (Text.ofString "ull" ++ rest)).trans ?_
      exact congrArg (Option.orElse · _) (readWord_null rest)
  | .bool true =>
      refine (readValue_scalar (by decide) n (Text.ofString "rue" ++ rest)).trans ?_
      exact congrArg (Option.orElse · _) (readWord_true rest)
  | .bool false =>
      refine (readValue_scalar (by decide) n (Text.ofString "alse" ++ rest)).trans ?_
      exact congrArg (Option.orElse · _) (readWord_false rest)
  | .int m => exact readValue_printInt hv hrest n
  | .str t =>
      rw [Json.print, Json.printString, PlainText.escape hv, List.cons_append, List.append_assoc,
        readValue, if_pos rfl, List.singleton_append, readString_plain hv (by simp)]
      rfl
  | .arr [] => rfl
  | .arr (item :: items) =>
      rw [Json.print, List.length_cons, List.length_append, List.length_singleton] at hfuel
      have hread := readItems_print item items hv n rest (by omega)
      obtain ⟨rest', hbegins⟩ := printItems_cons item items (0x5D :: rest)
      obtain ⟨c, tail, hcons, hspace, hbracket⟩ := print_begins item rest'
      rw [Json.print, List.cons_append, List.append_assoc, List.singleton_append]
      rw [hbegins, hcons] at hread ⊢
      rw [readValue, if_neg (by decide), if_neg (by decide), if_pos rfl, skipSpace_cons hspace,
        expect_of_ne hbracket, hread]
      rfl
  | .obj [] => rfl
  | .obj (member :: members) =>
      rw [Json.print, List.length_cons, List.length_append, List.length_singleton] at hfuel
      have hread := readMembers_print member members hv.1 n rest (by omega)
      obtain ⟨tail, hcons⟩ := printMembers_cons member members (0x7D :: rest)
      rw [Json.print, List.cons_append, List.append_assoc, List.singleton_append]
      rw [hcons] at hread ⊢
      rw [readValue, if_neg (by decide), if_pos rfl, skipSpace_cons rfl,
        expect_of_ne (by decide), hread]
      refine congrArg (fun members => some (Value.obj members, rest)) (ofPairs_of_nodup ?_)
      rw [ofMembers_eq, List.map_map]
      exact hv.2
termination_by fuel
decreasing_by all_goals omega

theorem readItems_print (item : Json) (items : List Json) (hitems : PlainItems (item :: items))
    (fuel : Nat) (rest : Text) (hfuel : (Json.printItems (item :: items)).length + 1 < fuel) :
    readItems fuel (Json.printItems (item :: items) ++ 0x5D :: rest) =
      some (ofItems (item :: items), rest) := by
  obtain ⟨n, hn⟩ := Nat.exists_eq_succ_of_ne_zero (Nat.ne_of_gt (Nat.zero_lt_of_lt hfuel))
  rw [hn] at hfuel ⊢
  match items with
  | [] =>
      rw [Json.printItems] at hfuel
      exact readItems_close (readValue_print item hitems.1 n _ (by omega)
        (ends_cons (Or.inr (Or.inl rfl)) rest))
  | next :: items =>
      have hlength : (Json.printItems (item :: next :: items)).length =
          (Json.print item).length + ((Json.printItems (next :: items)).length + 1) := by
        show (Json.print item ++ 0x2C :: Json.printItems (next :: items)).length = _
        rw [List.length_append, List.length_cons]
      obtain ⟨rest', hbegins⟩ := printItems_cons next items (0x5D :: rest)
      show readItems (n + 1) ((Json.print item ++ 0x2C :: Json.printItems (next :: items))
        ++ 0x5D :: rest) = _
      rw [List.append_assoc, List.cons_append]
      refine readItems_comma (readValue_print item hitems.1 n _ (by omega)
        (ends_cons (Or.inl rfl) _)) ?_ (readItems_print next items hitems.2 n rest (by omega))
      rw [hbegins]
      exact skipSpace_print next rest'
termination_by fuel
decreasing_by all_goals omega

theorem readMembers_print (member : Text × Json) (members : List (Text × Json))
    (hmembers : PlainMembers (member :: members)) (fuel : Nat) (rest : Text)
    (hfuel : (Json.printMembers (member :: members)).length + 1 < fuel) :
    readMembers fuel (Json.printMembers (member :: members) ++ 0x7D :: rest) =
      some (ofMembers (member :: members), rest) := by
  obtain ⟨n, hn⟩ := Nat.exists_eq_succ_of_ne_zero (Nat.ne_of_gt (Nat.zero_lt_of_lt hfuel))
  rw [hn] at hfuel ⊢
  match member, members with
  | (key, value), [] =>
      have hlength : (Json.printMembers [(key, value)]).length =
          (Json.printString key).length + ((Json.print value).length + 1) := by
        show (Json.printString key ++ 0x3A :: Json.print value).length = _
        rw [List.length_append, List.length_cons]
      show readMembers (n + 1) ((Json.printString key ++ 0x3A :: Json.print value)
        ++ 0x7D :: rest) = _
      rw [List.append_assoc, List.cons_append]
      exact readMembers_close hmembers.1 (skipSpace_print value _) (readValue_print value
        hmembers.2.1 n _ (by omega) (ends_cons (Or.inr (Or.inr rfl)) rest))
  | (key, value), next :: members =>
      have hlength : (Json.printMembers ((key, value) :: next :: members)).length =
          (Json.printString key).length + ((Json.print value).length + 1)
            + ((Json.printMembers (next :: members)).length + 1) := by
        show ((Json.printString key ++ 0x3A :: Json.print value)
          ++ 0x2C :: Json.printMembers (next :: members)).length = _
        rw [List.length_append, List.length_append, List.length_cons, List.length_cons]
      obtain ⟨tail, hbegins⟩ := printMembers_cons next members (0x7D :: rest)
      show readMembers (n + 1) (((Json.printString key ++ 0x3A :: Json.print value)
        ++ 0x2C :: Json.printMembers (next :: members)) ++ 0x7D :: rest) = _
      rw [List.append_assoc, List.append_assoc, List.cons_append, List.cons_append]
      refine readMembers_comma hmembers.1 (skipSpace_print value _) (readValue_print value
        hmembers.2.1 n _ (by omega) (ends_cons (Or.inl rfl) _)) ?_
        (readMembers_print next members hmembers.2.2 n rest (by omega))
      rw [hbegins]
      exact skipSpace_cons rfl tail
termination_by fuel
decreasing_by all_goals omega

end

end JsonLoads
