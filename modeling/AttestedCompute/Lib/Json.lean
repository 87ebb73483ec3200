import AttestedCompute.Lib.Text

/-!
# JSON values and their compact text

The values a Python JSON codec works on, without floats, and the text
`json.dumps(value, ensure_ascii=False, sort_keys=True, separators=(",", ":"))`
prints for them. The printer is injective up to the order of object members,
because every token announces where it ends: a number by the first character that
is no digit, a string by its unescaped quote, a container by its bracket.
-/

/-- A JSON value; an object is its list of members in insertion order. -/
inductive Json where
  | null
  | bool (b : Bool)
  | int (n : Int)
  | str (t : Text)
  | arr (items : List Json)
  | obj (members : List (Text × Json))

namespace Json

/-- The two-character escapes. -/
def shortEscape (c : CodePoint) : Option Char :=
  if c = 0x22 then some '"'
  else if c = 0x5C then some '\\'
  else if c = 0x0A then some 'n'
  else if c = 0x0D then some 'r'
  else if c = 0x09 then some 't'
  else if c = 0x0C then some 'f'
  else if c = 0x08 then some 'b'
  else none

/-- How one code point is printed inside a string. -/
def escape (c : CodePoint) : Text :=
  match shortEscape c with
  | some letter => [0x5C, Text.ofChar letter]
  | none =>
      if c < 0x20 then
        [0x5C, Text.ofChar 'u', Text.ofChar '0', Text.ofChar '0',
          Text.ofChar (Bytes.hexDigit (c.val / 16)), Text.ofChar (Bytes.hexDigit (c.val % 16))]
      else [c]

def printString (t : Text) : Text := 0x22 :: (t.flatMap escape ++ [0x22])

def printNat (n : Nat) : Text := (Nat.toDigits 10 n).map Text.ofChar

/-- `int.__repr__` -/
def printInt : Int → Text
  | .ofNat n => printNat n
  | .negSucc n => 0x2D :: printNat (n + 1)

mutual

/-- The compact text of a value, members in the order given. -/
def print : Json → Text
  | null => Text.ofString "null"
  | bool true => Text.ofString "true"
  | bool false => Text.ofString "false"
  | int n => printInt n
  | str t => printString t
  | arr items => 0x5B :: (printItems items ++ [0x5D])
  | obj members => 0x7B :: (printMembers members ++ [0x7D])

def printItems : List Json → Text
  | [] => []
  | [item] => print item
  | item :: rest => print item ++ 0x2C :: printItems rest

def printMembers : List (Text × Json) → Text
  | [] => []
  | [(key, value)] => printString key ++ 0x3A :: print value
  | (key, value) :: rest => printString key ++ 0x3A :: print value ++ 0x2C :: printMembers rest

end

mutual

/-- The same value with the members of every object sorted by key. -/
def sortKeys : Json → Json
  | arr items => arr (sortItems items)
  | obj members => obj ((sortMembers members).insertionSort fun a b => a.1 ≤ b.1)
  | v => v

def sortItems : List Json → List Json
  | [] => []
  | item :: rest => sortKeys item :: sortItems rest

def sortMembers : List (Text × Json) → List (Text × Json)
  | [] => []
  | (key, value) :: rest => (key, sortKeys value) :: sortMembers rest

end

/-! ## Numbers end at the first character that is no digit -/

def isDigit (c : CodePoint) : Bool := 0x30 ≤ c && c ≤ 0x39

/-- The text goes on, if at all, with a character that is no digit. -/
def Stops (rest : Text) : Prop := ∀ c ∈ rest.head?, isDigit c = false

theorem stops_cons {c : CodePoint} (h : isDigit c = false) (rest : Text) : Stops (c :: rest) := by
  intro d hd
  rw [List.head?_cons, Option.mem_def, Option.some.injEq] at hd
  exact hd ▸ h

theorem isDigit_ofChar {c : Char} (h : c.isDigit = true) : isDigit (Text.ofChar c) = true := by
  have hrange := Char.isDigit_iff_toNat.mp h
  simp only [isDigit, Bool.and_eq_true, decide_eq_true_eq, Fin.le_def]
  exact hrange

theorem isDigit_printNat {n : Nat} : ∀ c ∈ printNat n, isDigit c = true := by
  intro c hc
  obtain ⟨d, hd, rfl⟩ := List.mem_map.mp hc
  exact isDigit_ofChar (Nat.isDigit_of_mem_toDigits (by decide) (by decide) hd)

theorem printNat_ne_nil (n : Nat) : printNat n ≠ [] := by
  rw [printNat, ne_eq, List.map_eq_nil_iff]
  exact Nat.toDigits_ne_nil

theorem printNat_injective {m n : Nat} (h : printNat m = printNat n) : m = n := by
  have hdigits := List.map_injective_iff.mpr Text.ofChar_injective h
  refine Nat.repr_injective ?_
  rw [Nat.repr_eq_ofList_toDigits, Nat.repr_eq_ofList_toDigits, hdigits]

theorem takeWhile_digits {ds rest : Text} (hds : ∀ c ∈ ds, isDigit c = true) (hrest : Stops rest) :
    (ds ++ rest).takeWhile isDigit = ds := by
  rw [List.takeWhile_append_of_pos hds]
  cases rest with
  | nil => simp
  | cons c rest =>
      rw [List.takeWhile_cons, if_neg (by rw [hrest c (by simp)]; simp), List.append_nil]

theorem printNat_append {m n : Nat} {rest rest' : Text} (hrest : Stops rest)
    (hrest' : Stops rest') (h : printNat m ++ rest = printNat n ++ rest') :
    m = n ∧ rest = rest' := by
  have htake := congrArg (List.takeWhile isDigit) h
  rw [takeWhile_digits isDigit_printNat hrest, takeWhile_digits isDigit_printNat hrest'] at htake
  rw [htake] at h
  exact ⟨printNat_injective htake, List.append_cancel_left h⟩

/-! ## Strings end at the first unescaped quote -/

theorem escape_of_printable {c : CodePoint} (hquote : c ≠ 0x22) (hback : c ≠ 0x5C)
    (hcontrol : ¬ c < 0x20) : escape c = [c] := by
  have hlow : ∀ k : CodePoint, k < 0x20 → c ≠ k := by
    rintro k hk rfl
    exact hcontrol hk
  rw [escape, shortEscape, if_neg hquote, if_neg hback, if_neg (hlow _ (by decide)),
    if_neg (hlow _ (by decide)), if_neg (hlow _ (by decide)), if_neg (hlow _ (by decide)),
    if_neg (hlow _ (by decide))]
  exact if_neg hcontrol

/-- The code points that are printed as an escape. -/
def escaped : List CodePoint := (List.range 0x20).map (Fin.ofNat _) ++ [0x22, 0x5C]

theorem escape_of_not_mem {c : CodePoint} (h : c ∉ escaped) : escape c = [c] := by
  rw [escaped, List.mem_append, not_or] at h
  refine escape_of_printable (fun hc => h.2 (by simp [hc])) (fun hc => h.2 (by simp [hc]))
    fun hlt => h.1 (List.mem_map.mpr ⟨c.val, ?_, Fin.ext (Nat.mod_eq_of_lt c.isLt)⟩)
  exact List.mem_range.mpr hlt

theorem escaped_all_isPrefixOf : (escaped.all fun c => escaped.all fun d =>
    !(escape c).isPrefixOf (escape d) || c == d) = true := by
  decide +kernel

theorem escaped_eq {c d : CodePoint} (hc : c ∈ escaped) (hd : d ∈ escaped)
    (h : (escape c).isPrefixOf (escape d) = true) : c = d := by
  have hcd := List.all_eq_true.mp (List.all_eq_true.mp escaped_all_isPrefixOf c hc) d hd
  simpa [h] using hcd

theorem escaped_all_head :
    (escaped.all fun c => (escape c).head? = some 0x5C ∧ 2 ≤ (escape c).length) = true := by
  decide +kernel

theorem escaped_head {c : CodePoint} (hc : c ∈ escaped) :
    (escape c).head? = some 0x5C ∧ 2 ≤ (escape c).length := by
  simpa using List.all_eq_true.mp escaped_all_head c hc

theorem backslash_mem_escaped : (0x5C : CodePoint) ∈ escaped := by decide +kernel

theorem quote_mem_escaped : (0x22 : CodePoint) ∈ escaped := by decide +kernel

/-- The escapes form a prefix code. -/
theorem escape_eq {c d : CodePoint} (h : escape c <+: escape d) : c = d := by
  by_cases hc : c ∈ escaped
  · by_cases hd : d ∈ escaped
    · exact escaped_eq hc hd (List.isPrefixOf_iff_prefix.mpr h)
    · rw [escape_of_not_mem hd] at h
      have hlong := (escaped_head hc).2
      have hshort := h.length_le
      rw [List.length_singleton] at hshort
      omega
  · rw [escape_of_not_mem hc] at h
    obtain ⟨tail, htail⟩ := h
    by_cases hd : d ∈ escaped
    · have hhead := (escaped_head hd).1
      rw [← htail, List.singleton_append, List.head?_cons] at hhead
      injection hhead with hhead
      exact absurd backslash_mem_escaped (hhead ▸ hc)
    · rw [escape_of_not_mem hd] at htail
      exact (List.cons.inj htail).1

/-- No escape begins with a quote. -/
theorem escape_head {c : CodePoint} {rest tail : Text} : escape c ++ rest ≠ 0x22 :: tail := by
  intro h
  by_cases hc : c ∈ escaped
  · have hhead := (escaped_head hc).1
    obtain ⟨more, hmore⟩ := List.head?_eq_some_iff.mp hhead
    rw [hmore, List.cons_append] at h
    exact absurd (List.cons.inj h).1 (by decide)
  · rw [escape_of_not_mem hc, List.singleton_append] at h
    exact hc ((List.cons.inj h).1 ▸ quote_mem_escaped)

/-- Prefixes of one list that form a prefix code are equal. -/
theorem escape_append {c d : CodePoint} {rest rest' : Text}
    (h : escape c ++ rest = escape d ++ rest') : c = d ∧ rest = rest' := by
  have hcd : c = d := by
    rcases List.prefix_or_prefix_of_prefix (List.prefix_append (escape c) rest)
      (h ▸ List.prefix_append (escape d) rest') with hpre | hpre
    · exact escape_eq hpre
    · exact (escape_eq hpre).symm
  rw [hcd] at h
  exact ⟨hcd, List.append_cancel_left h⟩

theorem printString_append {s t rest rest' : Text}
    (h : printString s ++ rest = printString t ++ rest') : s = t ∧ rest = rest' := by
  have hbody : s.flatMap escape ++ 0x22 :: rest = t.flatMap escape ++ 0x22 :: rest' := by
    have h' := (List.cons.inj h).2
    simpa using h'
  clear h
  induction s generalizing t with
  | nil =>
      cases t with
      | nil => exact ⟨rfl, (List.cons.inj hbody).2⟩
      | cons d t =>
          rw [List.flatMap_cons, List.append_assoc] at hbody
          exact absurd hbody.symm escape_head
  | cons c s ih =>
      cases t with
      | nil =>
          rw [List.flatMap_cons, List.append_assoc] at hbody
          exact absurd hbody escape_head
      | cons d t =>
          rw [List.flatMap_cons, List.flatMap_cons, List.append_assoc, List.append_assoc] at hbody
          obtain ⟨hcd, hrest⟩ := escape_append hbody
          obtain ⟨hst, hend⟩ := ih hrest
          exact ⟨by rw [hcd, hst], hend⟩

/-! ## Values end where their text ends -/

/-- The first character of a value tells its kind. -/
inductive Kind where
  | word (c : CodePoint)
  | number
  | string
  | array
  | object
  deriving DecidableEq

def kind : Json → Kind
  | null => .word (Text.ofChar 'n')
  | bool true => .word (Text.ofChar 't')
  | bool false => .word (Text.ofChar 'f')
  | int _ => .number
  | str _ => .string
  | arr _ => .array
  | obj _ => .object

/-- The kind a first character announces. -/
def kindOf (c : CodePoint) : Kind :=
  if c = 0x22 then .string
  else if c = 0x5B then .array
  else if c = 0x7B then .object
  else if c = 0x2D ∨ isDigit c then .number
  else .word c

theorem print_head (v : Json) : ∃ c tail, print v = c :: tail ∧ kindOf c = kind v
    ∧ c ≠ 0x5D ∧ c ≠ 0x7D := by
  have hnat : ∀ n, ∃ c tail, printNat n = c :: tail ∧ kindOf c = .number ∧ c ≠ 0x5D ∧ c ≠ 0x7D := by
    intro n
    obtain ⟨c, tail, hcons⟩ := List.exists_cons_of_ne_nil (printNat_ne_nil n)
    have hdigit : isDigit c = true := isDigit_printNat c (by rw [hcons]; simp)
    have hne : ∀ k : CodePoint, isDigit k = false → c ≠ k := by
      rintro k hk rfl
      rw [hdigit] at hk
      exact absurd hk (by simp)
    refine ⟨c, tail, hcons, ?_, hne _ (by decide), hne _ (by decide)⟩
    rw [kindOf, if_neg (hne _ (by decide)), if_neg (hne _ (by decide)), if_neg (hne _ (by decide)),
      if_pos (.inr hdigit)]
  cases v with
  | null => exact ⟨Text.ofChar 'n', _, rfl, by decide, by decide, by decide⟩
  | bool b =>
      cases b with
      | true => exact ⟨Text.ofChar 't', _, rfl, by decide, by decide, by decide⟩
      | false => exact ⟨Text.ofChar 'f', _, rfl, by decide, by decide, by decide⟩
  | int n =>
      cases n with
      | ofNat n => exact hnat n
      | negSucc n => exact ⟨0x2D, _, rfl, (by decide : kindOf 0x2D = .number), by decide, by decide⟩
  | str t => exact ⟨0x22, _, rfl, (by decide : kindOf 0x22 = .string), by decide, by decide⟩
  | arr items => exact ⟨0x5B, _, rfl, (by decide : kindOf 0x5B = .array), by decide, by decide⟩
  | obj members => exact ⟨0x7B, _, rfl, (by decide : kindOf 0x7B = .object), by decide, by decide⟩

/-- Values that print alike are of one kind. -/
theorem kind_eq {v w : Json} {rest rest' : Text} (h : print v ++ rest = print w ++ rest') :
    kind v = kind w := by
  obtain ⟨c, tail, hv, hkind, -⟩ := print_head v
  obtain ⟨d, tail', hw, hkind', -⟩ := print_head w
  rw [hv, hw] at h
  rw [← hkind, ← hkind', (List.cons.inj h).1]

theorem print_ne_bracket {v : Json} {rest tail : Text} :
    print v ++ rest ≠ 0x5D :: tail := by
  intro h
  obtain ⟨c, more, hv, -, hne, -⟩ := print_head v
  rw [hv] at h
  exact hne (List.cons.inj h).1

theorem printInt_append {m n : Int} {rest rest' : Text} (hrest : Stops rest)
    (hrest' : Stops rest') (h : printInt m ++ rest = printInt n ++ rest') :
    m = n ∧ rest = rest' := by
  have hminus : ∀ {k : Nat} {t t' : Text}, printNat k ++ t ≠ 0x2D :: t' := by
    intro k t t' hk
    obtain ⟨c, tail, hcons⟩ := List.exists_cons_of_ne_nil (printNat_ne_nil k)
    have hdigit : isDigit c = true := isDigit_printNat c (by rw [hcons]; simp)
    rw [hcons] at hk
    rw [(List.cons.inj hk).1] at hdigit
    exact absurd hdigit (by decide)
  cases m with
  | ofNat m =>
      cases n with
      | ofNat n =>
          obtain ⟨hmn, hr⟩ := printNat_append hrest hrest' h
          exact ⟨by rw [hmn], hr⟩
      | negSucc n => exact absurd h hminus
  | negSucc m =>
      cases n with
      | ofNat n => exact absurd h.symm hminus
      | negSucc n =>
          obtain ⟨hmn, hr⟩ := printNat_append hrest hrest' (List.cons.inj h).2
          exact ⟨by rw [Nat.succ_injective hmn], hr⟩

/-- The text after an item: a comma and more items, or the closing bracket. -/
theorem printItems_cons (item : Json) (items : List Json) (rest : Text) :
    ∃ tail, printItems (item :: items) ++ 0x5D :: rest = print item ++ tail ∧ Stops tail
      ∧ (items = [] → tail = 0x5D :: rest)
      ∧ (items ≠ [] → tail = 0x2C :: (printItems items ++ 0x5D :: rest)) := by
  cases items with
  | nil => exact ⟨_, rfl, stops_cons (by decide) _, fun _ => rfl, fun h => absurd rfl h⟩
  | cons next more =>
      refine ⟨0x2C :: (printItems (next :: more) ++ 0x5D :: rest), ?_, stops_cons (by decide) _,
        fun h => absurd h (by simp), fun _ => rfl⟩
      rw [printItems]
      · simp
      · simp

theorem printMembers_cons (key : Text) (value : Json) (members : List (Text × Json))
    (rest : Text) :
    ∃ tail, printMembers ((key, value) :: members) ++ 0x7D :: rest
        = printString key ++ 0x3A :: (print value ++ tail) ∧ Stops tail
      ∧ (members = [] → tail = 0x7D :: rest)
      ∧ (members ≠ [] → tail = 0x2C :: (printMembers members ++ 0x7D :: rest)) := by
  cases members with
  | nil =>
      exact ⟨0x7D :: rest, by simp [printMembers], stops_cons (by decide) _, fun _ => rfl,
        fun h => absurd rfl h⟩
  | cons next more =>
      refine ⟨0x2C :: (printMembers (next :: more) ++ 0x7D :: rest), ?_, stops_cons (by decide) _,
        fun h => absurd h (by simp), fun _ => rfl⟩
      rw [printMembers]
      · simp
      · simp

mutual

/-- **The text of a value determines the value and where it ends.** -/
theorem print_append (v w : Json) {rest rest' : Text} (hrest : Stops rest) (hrest' : Stops rest')
    (h : print v ++ rest = print w ++ rest') : v = w ∧ rest = rest' := by
  have hkind := kind_eq h
  match v, w with
  | null, null => exact ⟨rfl, List.append_cancel_left h⟩
  | bool true, bool true => exact ⟨rfl, List.append_cancel_left h⟩
  | bool false, bool false => exact ⟨rfl, List.append_cancel_left h⟩
  | int m, int n =>
      obtain ⟨hmn, hr⟩ := printInt_append hrest hrest' h
      exact ⟨by rw [hmn], hr⟩
  | str s, str t =>
      obtain ⟨hst, hr⟩ := printString_append h
      exact ⟨by rw [hst], hr⟩
  | arr xs, arr ys =>
      have hitems : printItems xs ++ 0x5D :: rest = printItems ys ++ 0x5D :: rest' := by
        simpa [print] using h
      obtain ⟨hxy, hr⟩ := printItems_append xs ys hitems
      exact ⟨by rw [hxy], hr⟩
  | obj xs, obj ys =>
      have hmembers : printMembers xs ++ 0x7D :: rest = printMembers ys ++ 0x7D :: rest' := by
        simpa [print] using h
      obtain ⟨hxy, hr⟩ := printMembers_append xs ys hmembers
      exact ⟨by rw [hxy], hr⟩

theorem printItems_append (xs ys : List Json) {rest rest' : Text}
    (h : printItems xs ++ 0x5D :: rest = printItems ys ++ 0x5D :: rest') :
    xs = ys ∧ rest = rest' := by
  match xs, ys with
  | [], [] => exact ⟨rfl, (List.cons.inj h).2⟩
  | [], y :: ys =>
      obtain ⟨tail, hcons, -⟩ := printItems_cons y ys rest'
      rw [hcons] at h
      exact absurd h.symm print_ne_bracket
  | x :: xs, [] =>
      obtain ⟨tail, hcons, -⟩ := printItems_cons x xs rest
      rw [hcons] at h
      exact absurd h print_ne_bracket
  | x :: xs, y :: ys =>
      obtain ⟨tail, hcons, hstops, hnil, hmore⟩ := printItems_cons x xs rest
      obtain ⟨tail', hcons', hstops', hnil', hmore'⟩ := printItems_cons y ys rest'
      rw [hcons, hcons'] at h
      obtain ⟨hxy, htail⟩ := print_append x y hstops hstops' h
      by_cases hxs : xs = []
      · by_cases hys : ys = []
        · rw [hnil hxs, hnil' hys] at htail
          exact ⟨by rw [hxy, hxs, hys], (List.cons.inj htail).2⟩
        · rw [hnil hxs, hmore' hys] at htail
          exact absurd (List.cons.inj htail).1 (by decide)
      · by_cases hys : ys = []
        · rw [hmore hxs, hnil' hys] at htail
          exact absurd (List.cons.inj htail).1 (by decide)
        · rw [hmore hxs, hmore' hys] at htail
          obtain ⟨hrest, hend⟩ := printItems_append xs ys (List.cons.inj htail).2
          exact ⟨by rw [hxy, hrest], hend⟩

theorem printMembers_append (xs ys : List (Text × Json)) {rest rest' : Text}
    (h : printMembers xs ++ 0x7D :: rest = printMembers ys ++ 0x7D :: rest') :
    xs = ys ∧ rest = rest' := by
  match xs, ys with
  | [], [] => exact ⟨rfl, (List.cons.inj h).2⟩
  | [], (key, value) :: ys =>
      obtain ⟨tail, hcons, -⟩ := printMembers_cons key value ys rest'
      rw [hcons] at h
      exact absurd (List.cons.inj h).1 (by decide)
  | (key, value) :: xs, [] =>
      obtain ⟨tail, hcons, -⟩ := printMembers_cons key value xs rest
      rw [hcons] at h
      exact absurd (List.cons.inj h).1 (by decide)
  | (key, value) :: xs, (key', value') :: ys =>
      obtain ⟨tail, hcons, hstops, hnil, hmore⟩ := printMembers_cons key value xs rest
      obtain ⟨tail', hcons', hstops', hnil', hmore'⟩ := printMembers_cons key' value' ys rest'
      rw [hcons, hcons'] at h
      obtain ⟨hkey, hbody⟩ := printString_append h
      obtain ⟨hvalue, htail⟩ := print_append value value' hstops hstops' (List.cons.inj hbody).2
      by_cases hxs : xs = []
      · by_cases hys : ys = []
        · rw [hnil hxs, hnil' hys] at htail
          exact ⟨by rw [hkey, hvalue, hxs, hys], (List.cons.inj htail).2⟩
        · rw [hnil hxs, hmore' hys] at htail
          exact absurd (List.cons.inj htail).1 (by decide)
      · by_cases hys : ys = []
        · rw [hmore hxs, hnil' hys] at htail
          exact absurd (List.cons.inj htail).1 (by decide)
        · rw [hmore hxs, hmore' hys] at htail
          obtain ⟨hrest, hend⟩ := printMembers_append xs ys (List.cons.inj htail).2
          exact ⟨by rw [hkey, hvalue, hrest], hend⟩

end

/-- **Printing is injective.** -/
theorem print_injective {v w : Json} (h : print v = print w) : v = w := by
  have hnil : Stops [] := by intro c hc; simp at hc
  exact (print_append v w hnil hnil (by rw [h])).1

/-! ## Sorting the members -/

theorem sortItems_eq (items : List Json) : sortItems items = items.map sortKeys := by
  induction items with
  | nil => rfl
  | cons item rest ih => rw [sortItems, ih, List.map_cons]

theorem sortMembers_zip (keys : List Text) (values : List Json) :
    sortMembers (keys.zip values) = keys.zip (values.map sortKeys) := by
  induction keys generalizing values with
  | nil => rfl
  | cons key keys ih =>
      cases values with
      | nil => rfl
      | cons value values => rw [List.zip_cons_cons, sortMembers, ih, List.map_cons,
          List.zip_cons_cons]

/-- Rows paired with distinct keys are determined by the pairs, in whatever order these come. -/
theorem zip_perm {keys : List Text} {xs ys : List Json} (hkeys : keys.Nodup)
    (hx : xs.length = keys.length) (hy : ys.length = keys.length)
    (h : (keys.zip xs).Perm (keys.zip ys)) : xs = ys := by
  refine List.ext_getElem (hx.trans hy.symm) fun i hi hi' => ?_
  have hik : i < keys.length := hx ▸ hi
  have hmem : (keys[i], xs[i]) ∈ keys.zip ys :=
    h.subset (List.mem_of_getElem? (i := i) (by simp [hik, hi]))
  obtain ⟨j, hj⟩ := List.mem_iff_getElem?.mp hmem
  obtain ⟨hkey, hval⟩ := List.getElem?_zip_eq_some.mp hj
  obtain ⟨hjk, hkey⟩ := List.getElem?_eq_some_iff.mp hkey
  obtain rfl : j = i := (List.Nodup.getElem_inj_iff hkeys).mp hkey
  rw [List.getElem?_eq_getElem hi'] at hval
  injection hval with hval
  exact hval.symm

/-- **Objects with the same distinct keys are equal after sorting only if their values are.** -/
theorem sortKeys_obj_injective {keys : List Text} {xs ys : List Json} (hkeys : keys.Nodup)
    (hx : xs.length = keys.length) (hy : ys.length = keys.length)
    (h : sortKeys (obj (keys.zip xs)) = sortKeys (obj (keys.zip ys))) :
    xs.map sortKeys = ys.map sortKeys := by
  rw [sortKeys, sortKeys, sortMembers_zip, sortMembers_zip] at h
  injection h with h
  have hperm := List.perm_insertionSort (fun a b => a.1 ≤ b.1) (keys.zip (ys.map sortKeys))
  rw [← h] at hperm
  exact zip_perm hkeys (by simpa) (by simpa) ((List.perm_insertionSort _ _).symm.trans hperm)

/-! ## Canonical bytes -/

/-- Why a value has no canonical bytes. -/
inductive Fault where
  /-- `ValueError`: an integer has more decimal digits than `int.__repr__` converts. -/
  | longInteger
  /-- `UnicodeEncodeError`: a string holds a lone surrogate. -/
  | surrogate
  deriving DecidableEq, Repr

mutual

/-- Every integer is short enough for `int.__repr__`. -/
def fits : Json → Bool
  | int n => n.natAbs < 10 ^ 4300
  | arr items => fitsItems items
  | obj members => fitsMembers members
  | _ => true

def fitsItems : List Json → Bool
  | [] => true
  | item :: rest => fits item && fitsItems rest

def fitsMembers : List (Text × Json) → Bool
  | [] => true
  | (_, value) :: rest => fits value && fitsMembers rest

end

/-- `json.dumps(value, ensure_ascii=False, sort_keys=True, separators=(",", ":"))` -/
def dumps (v : Json) : Text := print (sortKeys v)

/-- The UTF-8 text of a value, and a newline. -/
def canonicalBytes (v : Json) : Except Fault Bytes :=
  if fits v = false then .error .longInteger
  else if ¬ (dumps v).Encodable then .error .surrogate
  else .ok ((dumps v).utf8 ++ [0x0A])

/-- **Canonical bytes determine the value**, up to the order of object members. -/
theorem canonicalBytes_injective {v w : Json} {bytes : Bytes} (hv : canonicalBytes v = .ok bytes)
    (hw : canonicalBytes w = .ok bytes) : sortKeys v = sortKeys w := by
  have hok : ∀ {x : Json}, canonicalBytes x = .ok bytes →
      (dumps x).Encodable ∧ (dumps x).utf8 ++ [0x0A] = bytes := by
    intro x hx
    unfold canonicalBytes at hx
    split at hx
    · exact absurd hx (by simp)
    split at hx
    · exact absurd hx (by simp)
    rename_i henc
    injection hx with hx
    exact ⟨not_not.mp henc, hx⟩
  obtain ⟨hev, hbv⟩ := hok hv
  obtain ⟨hew, hbw⟩ := hok hw
  exact print_injective (Text.utf8_injective hev hew
    (List.append_cancel_right (hbv.trans hbw.symm)))

end Json
