import AttestedCompute.Lib.JsonLoads

/-!
# Files that hold one canonical object

A file whose bytes must be the compact text of the object they spell, with a newline. The
object that was read has different keys, so the text is known from the members whatever
order they come in; a plain object is read back from its text; and a canonical decimal
string is the text of its value.
-/

namespace JsonLoads

/-! ## Decimal strings -/

theorem digitsValue_append (digits : Text) (c : CodePoint) :
    digitsValue (digits ++ [c]) = 10 * digitsValue digits + (c.val - 0x30) := by
  simp [digitsValue]

/-- The text of a digit. -/
theorem printNat_digit {c : CodePoint} (h : Json.isDigit c = true) :
    Json.printNat (c.val - 0x30) = [c] := by
  simp only [Json.isDigit, Bool.and_eq_true, decide_eq_true_eq, Fin.le_def] at h
  have hall : ∀ n, 0x30 ≤ n → n ≤ 0x39 → Json.printNat (n - 0x30) = [Fin.ofNat _ n] := by
    intro n hlow hhigh
    interval_cases n <;> decide
  have hself : (Fin.ofNat _ c.val : CodePoint) = c := Fin.ofNat_val_eq_self c
  exact (hall c.val h.1 h.2).trans (by rw [hself])

/-- **A canonical decimal string is the text of its value.** -/
theorem printNat_digitsValue {digits : Text} (hne : digits ≠ [])
    (hdigits : ∀ c ∈ digits, Json.isDigit c = true)
    (hleading : 1 < digits.length → digits.head? ≠ some 0x30) :
    Json.printNat (digitsValue digits) = digits ∧
      (digits.head? ≠ some 0x30 → 0 < digitsValue digits) := by
  induction digits using List.reverseRecOn with
  | nil => exact absurd rfl hne
  | append_singleton digits c ih =>
      have hc : Json.isDigit c = true := hdigits c (by simp)
      have hrange : 0x30 ≤ c.val ∧ c.val ≤ 0x39 := by
        simpa [Json.isDigit, Fin.le_def] using hc
      rw [digitsValue_append]
      cases digits with
      | nil =>
          refine ⟨by simpa [digitsValue] using printNat_digit hc, fun hhead => ?_⟩
          have hne : c.val ≠ 0x30 := fun h => hhead (congrArg some (Fin.ext h))
          omega
      | cons d digits =>
          -- the digits before the last one have no leading zero, so they are the text of a
          -- positive number
          have hlead : (d :: digits).head? ≠ some 0x30 := hleading (by simp)
          obtain ⟨hprint, hpos⟩ := ih (List.cons_ne_nil _ _)
            (fun c' hc' => hdigits c' (List.mem_append_left _ hc')) fun _ => hlead
          have hpos := hpos hlead
          refine ⟨?_, fun _ => by omega⟩
          have hsplit := Nat.toDigits_append_toDigits (b := 10) (n := digitsValue (d :: digits))
            (d := c.val - 0x30) (by norm_num) hpos (by omega)
          rw [Json.printNat, ← hsplit, List.map_append]
          exact congrArg₂ (· ++ ·) hprint (printNat_digit hc)

theorem digitsValue_lt {digits : Text} (h : ∀ c ∈ digits, Json.isDigit c = true) :
    digitsValue digits < 10 ^ digits.length := by
  induction digits using List.reverseRecOn with
  | nil => exact Nat.one_pos
  | append_singleton digits c ih =>
      have hc : c.val ≤ 0x39 := by
        have hdigit := h c (by simp)
        simp only [Json.isDigit, Bool.and_eq_true, decide_eq_true_eq, Fin.le_def] at hdigit
        exact hdigit.2
      have hfront := ih fun d hd => h d (List.mem_append_left _ hd)
      rw [digitsValue_append, List.length_append, List.length_singleton, Nat.pow_succ]
      omega

theorem length_printNat_iff {n : Nat} :
    (Json.printNat n).length ≤ Py.maxStrDigits ↔ n < 10 ^ Py.maxStrDigits := by
  rw [Json.printNat, List.length_map]
  exact Nat.length_toDigits_le_iff (by norm_num) (by decide)

/-! ## ASCII files -/

theorem toChar_ascii {c : CodePoint} (h : c.val < 128) : (Text.toChar c).toNat = c.val := by
  have hvalid : Nat.isValidChar c.val := .inl (by omega)
  rw [Text.toChar, Char.ofNat, dif_pos hvalid]
  rfl

/-- An ASCII text has one byte for each character. -/
theorem utf8_ascii {t : Text} (h : ∀ c ∈ t, c.val < 128) :
    Text.utf8 t = t.map fun c => UInt8.ofNat c.val := by
  induction t with
  | nil => rfl
  | cons c t ih =>
      have hc := toChar_ascii (h c (by simp))
      have hlt := h c (by simp)
      have hencode : String.utf8EncodeChar (Text.toChar c) = [UInt8.ofNat c.val] := by
        have hval : (Text.toChar c).val.toNat = c.val := hc
        rw [String.utf8EncodeChar, hval]
        exact if_pos (by omega)
      rw [Text.utf8, List.map_cons, List.flatMap_cons, hencode]
      exact congrArg (UInt8.ofNat c.val :: ·) (ih fun d hd => h d (by simp [hd]))

theorem asciiText_utf8 {t : Text} (h : ∀ c ∈ t, c.val < 128) :
    asciiText (Text.utf8 t) = some t := by
  have hbyte : ∀ c ∈ t, (UInt8.ofNat c.val).toNat = c.val := by
    intro c hc
    have := h c hc
    exact UInt8.toNat_ofNat_of_lt' (show c.val < 256 by omega)
  rw [utf8_ascii h, asciiText, List.map_map, if_pos]
  · refine congrArg some ((List.map_congr_left fun c hc => ?_).trans (List.map_id _))
    show (Fin.ofNat _ (UInt8.ofNat c.val).toNat : CodePoint) = c
    rw [hbyte c hc]
    exact Fin.ofNat_val_eq_self c
  · rw [List.all_map, List.all_eq_true]
    intro c hc
    show decide (UInt8.ofNat c.val < 128) = true
    rw [decide_eq_true_eq, UInt8.lt_iff_toNat_lt, hbyte c hc]
    exact h c hc

theorem asciiText_append_newline {t : Text} (h : ∀ c ∈ t, c.val < 128) :
    asciiText (Text.utf8 t ++ [0x0A]) = some (t ++ [0x0A]) := by
  have hnewline : Text.utf8 t ++ [0x0A] = Text.utf8 (t ++ [0x0A]) := by
    rw [Text.utf8, Text.utf8, List.map_append, List.flatMap_append]
    rfl
  rw [hnewline]
  refine asciiText_utf8 fun c hc => ?_
  rcases List.mem_append.mp hc with hc | hc
  · exact h c hc
  · rw [List.mem_singleton.mp hc]
    decide

/-! ## Members in any order -/

theorem sortMembers_eq (members : List (Text × Value)) :
    sortMembers members = members.map fun m => (m.1, sortKeys m.2) := by
  induction members with
  | nil => rfl
  | cons member members ih => rw [sortMembers, ih, List.map_cons]

/-- **Members with different keys have one text**, whatever order they come in. -/
theorem dumpsAscii_perm (floats : Floats) {members members' : List (Text × Value)}
    (hperm : members.Perm members') (hkeys : (members.map Prod.fst).Nodup) :
    dumpsAscii floats (.obj members) = dumpsAscii floats (.obj members') := by
  have hsorted : (sortMembers members).insertionSort (fun a b => a.1 ≤ b.1)
      = (sortMembers members').insertionSort fun a b => a.1 ≤ b.1 := by
    have hpairs := List.Perm.map (fun m : Text × Value => (m.1, sortKeys m.2)) hperm
    rw [← sortMembers_eq, ← sortMembers_eq] at hpairs
    have hall := ((List.perm_insertionSort (fun a b => a.1 ≤ b.1) _).trans hpairs).trans
      (List.perm_insertionSort (fun a b : Text × Value => a.1 ≤ b.1) _).symm
    refine List.Perm.eq_of_pairwise ?_ (List.pairwise_insertionSort _ _)
      (List.pairwise_insertionSort _ _) hall
    intro a b ha hb hab hba
    -- the keys are equal, and no two members have one key
    have hb := hall.symm.subset hb
    rw [List.Perm.mem_iff (List.perm_insertionSort _ _), sortMembers_eq] at ha hb
    obtain ⟨x, hx, rfl⟩ := List.mem_map.mp ha
    obtain ⟨y, hy, rfl⟩ := List.mem_map.mp hb
    rw [List.inj_on_of_nodup_map hkeys hx hy (le_antisymm hab hba)]
  rw [dumpsAscii, dumpsAscii, sortKeys, sortKeys, hsorted]

/-! ## Reading an object -/

/-- `dict(pairs)` has different keys. -/
theorem nodup_ofPairs (pairs : List (Text × Value)) : ((ofPairs pairs).map Prod.fst).Nodup := by
  unfold ofPairs
  induction pairs using List.reverseRecOn with
  | nil => exact List.nodup_nil
  | append_singleton pairs pair ih =>
      rw [List.foldl_append, List.foldl_cons, List.foldl_nil]
      generalize pairs.foldl _ [] = members at ih ⊢
      split
      · have hkeys : (members.map fun member => if member.1 = pair.1 then pair else member).map
            Prod.fst = members.map Prod.fst := by
          rw [List.map_map]
          refine List.map_congr_left fun member _ => ?_
          by_cases h : member.1 = pair.1
          · simp [h]
          · simp [h]
        rwa [hkeys]
      · rename_i hnew
        rw [List.map_append, List.nodup_append]
        refine ⟨ih, List.nodup_singleton _, fun key hkey other hother => ?_⟩
        obtain ⟨member, hmember, rfl⟩ := List.mem_map.mp hkey
        rintro rfl
        refine hnew (List.any_eq_true.mpr ⟨member, hmember, ?_⟩)
        exact decide_eq_true (List.mem_singleton.mp hother)

theorem mem_of_mem_ofPairs {pairs : List (Text × Value)} {m : Text × Value}
    (h : m ∈ ofPairs pairs) : m ∈ pairs := by
  unfold ofPairs at h
  induction pairs using List.reverseRecOn generalizing m with
  | nil => exact h
  | append_singleton pairs pair ih =>
      rw [List.foldl_append, List.foldl_cons, List.foldl_nil] at h
      rw [List.mem_append, List.mem_singleton]
      split at h
      · obtain ⟨old, hold, rfl⟩ := List.mem_map.mp h
        by_cases hkey : old.1 = pair.1
        · exact .inr (if_pos hkey)
        · rw [if_neg hkey]
          exact .inl (ih hold)
      · rcases List.mem_append.mp h with h | h
        · exact .inl (ih h)
        · exact .inr (List.mem_singleton.mp h)

/-- What a value that was read can be. -/
theorem readValue_cases {fuel : Nat} {t rest : Text} {v : Value}
    (h : readValue fuel t = some (v, rest)) :
    (∃ s, v = .str s) ∨ (∃ items, v = .arr items) ∨ v = .obj []
      ∨ (∃ fuel t pairs after, readMembers fuel t = some (pairs, after) ∧ v = .obj (ofPairs pairs))
      ∨ (∃ word ∈ words, v = word.2) ∨ readNumber t = some (v, rest) := by
  match fuel, t with
  | 0, _ => exact absurd h (by simp [readValue])
  | _ + 1, [] => exact absurd h (by simp [readValue])
  | fuel + 1, c :: t =>
      rw [readValue] at h
      split at h
      · obtain ⟨p, -, hp⟩ := Option.map_eq_some_iff.mp h
        exact .inl ⟨p.1, (congrArg Prod.fst hp).symm⟩
      split at h
      · split at h
        · exact .inr (.inr (.inl (congrArg Prod.fst (Option.some.inj h)).symm))
        · obtain ⟨p, hread, hp⟩ := Option.map_eq_some_iff.mp h
          exact .inr (.inr (.inr (.inl ⟨_, _, p.1, p.2, hread, (congrArg Prod.fst hp).symm⟩)))
      split at h
      · split at h
        · exact .inr (.inl ⟨[], (congrArg Prod.fst (Option.some.inj h)).symm⟩)
        · obtain ⟨p, -, hp⟩ := Option.map_eq_some_iff.mp h
          exact .inr (.inl ⟨p.1, (congrArg Prod.fst hp).symm⟩)
      · cases hword : readWord (c :: t) with
        | some read =>
            rw [hword] at h
            obtain ⟨word, hmem, h⟩ := List.exists_of_findSome?_eq_some (hword.trans h)
            obtain ⟨_, -, h⟩ := Option.map_eq_some_iff.mp h
            exact .inr (.inr (.inr (.inr (.inl ⟨word, hmem, (congrArg Prod.fst h).symm⟩))))
        | none =>
            rw [hword] at h
            exact .inr (.inr (.inr (.inr (.inr h))))

/-- The words stand for values of their own kinds. -/
theorem word_scalar {word : Text × Value} (h : word ∈ words) :
    (∀ members, word.2 ≠ .obj members) ∧ ∀ n, word.2 ≠ .int n := by
  simp only [words, List.mem_cons, List.not_mem_nil, or_false] at h
  rcases h with rfl | rfl | rfl | rfl | rfl | rfl <;> exact ⟨by simp, by simp⟩

/-- A number is an integer of at most 4300 digits or a float. -/
theorem readNumber_cases {t rest : Text} {v : Value} (h : readNumber t = some (v, rest)) :
    (∃ n, v = .int n ∧ n.natAbs < 10 ^ Py.maxStrDigits) ∨ ∃ token, v = .float token := by
  have hunsigned : ∀ sign t, readUnsigned sign t = some (v, rest) →
      (∃ n, v = .int n ∧ n.natAbs < 10 ^ Py.maxStrDigits) ∨ ∃ token, v = .float token := by
    intro sign t h
    unfold readUnsigned at h
    dsimp only at h
    have hdigits : ∀ c ∈ (if (t.takeWhile Json.isDigit).head? = some 0x30 then
        (t.takeWhile Json.isDigit).take 1 else t.takeWhile Json.isDigit), Json.isDigit c = true := by
      intro c hc
      split at hc
      · exact List.mem_takeWhile_imp (List.mem_of_mem_take hc)
      · exact List.mem_takeWhile_imp hc
    generalize (if (t.takeWhile Json.isDigit).head? = some 0x30 then
      (t.takeWhile Json.isDigit).take 1 else t.takeWhile Json.isDigit) = digits at h hdigits
    split at h
    · exact absurd h (by simp)
    split at h
    · split at h
      · exact absurd h (by simp)
      · rename_i hlong
        have hlt := (digitsValue_lt hdigits).trans_le
          (Nat.pow_le_pow_right (by norm_num) (not_lt.mp hlong))
        refine .inl ⟨_, (congrArg Prod.fst (Option.some.inj h)).symm, ?_⟩
        split
        · exact hlt
        · rwa [Int.natAbs_neg]
    · exact .inr ⟨_, (congrArg Prod.fst (Option.some.inj h)).symm⟩
  unfold readNumber at h
  split at h
  · exact hunsigned _ _ h
  · exact hunsigned _ _ h

/-- The integers among some members are short. -/
def ShortInts (members : List (Text × Value)) : Prop :=
  ∀ m ∈ members, ∀ n, m.2 = .int n → n.natAbs < 10 ^ Py.maxStrDigits

theorem shortInts_readMembers {fuel : Nat} {t rest : Text} {members : List (Text × Value)}
    (h : readMembers fuel t = some (members, rest)) : ShortInts members := by
  induction fuel generalizing t rest members with
  | zero => exact absurd h (by simp [readMembers])
  | succ fuel ih =>
      unfold readMembers at h
      obtain ⟨_, -, h⟩ := Option.bind_eq_some_iff.mp h
      obtain ⟨⟨key, _⟩, -, h⟩ := Option.bind_eq_some_iff.mp h
      obtain ⟨_, -, h⟩ := Option.bind_eq_some_iff.mp h
      obtain ⟨⟨value, after⟩, hvalue, h⟩ := Option.bind_eq_some_iff.mp h
      have hone : ∀ n, value = .int n → n.natAbs < 10 ^ Py.maxStrDigits := by
        rintro n rfl
        rcases readValue_cases hvalue with ⟨_, h⟩ | ⟨_, h⟩ | h | ⟨_, _, _, _, _, h⟩ | ⟨word, hw, h⟩ | h
        · exact absurd h (by simp)
        · exact absurd h (by simp)
        · exact absurd h (by simp)
        · exact absurd h (by simp)
        · exact absurd h.symm ((word_scalar hw).2 n)
        · rcases readNumber_cases h with ⟨m, hm, hshort⟩ | ⟨_, h⟩
          · exact Value.int.inj hm ▸ hshort
          · exact absurd h (by simp)
      dsimp only at h
      split at h
      · obtain rfl : [(key, value)] = members := congrArg Prod.fst (Option.some.inj h)
        intro m hm
        rw [List.mem_singleton.mp hm]
        exact hone
      · obtain ⟨_, -, h⟩ := Option.bind_eq_some_iff.mp h
        obtain ⟨⟨more, _⟩, hmore, h⟩ := Option.bind_eq_some_iff.mp h
        obtain rfl : (key, value) :: more = members := congrArg Prod.fst (Option.some.inj h)
        intro m hm
        rcases List.mem_cons.mp hm with rfl | hm
        · exact hone
        · exact ih hmore m hm

/-- **An object that was read** has different keys, and integers short enough to be printed. -/
theorem object_of_loads {t : Text} {members : List (Text × Value)}
    (h : loads t = some (.obj members)) :
    (members.map Prod.fst).Nodup ∧ ShortInts members := by
  obtain ⟨⟨value, rest⟩, hread, h⟩ := Option.bind_eq_some_iff.mp h
  dsimp only at h
  split at h
  · obtain rfl := Option.some.inj h
    rcases readValue_cases hread with ⟨_, h⟩ | ⟨_, h⟩ | h | ⟨_, _, pairs, _, hpairs, h⟩ |
      ⟨word, hw, h⟩ | h
    · exact absurd h (by simp)
    · exact absurd h (by simp)
    · obtain rfl := Value.obj.inj h
      exact ⟨List.nodup_nil, fun m hm => absurd hm (by simp)⟩
    · obtain rfl := Value.obj.inj h
      exact ⟨nodup_ofPairs _, fun m hm => shortInts_readMembers hpairs m (mem_of_mem_ofPairs hm)⟩
    · exact absurd h.symm ((word_scalar hw).1 members)
    · rcases readNumber_cases h with ⟨_, h, _⟩ | ⟨_, h⟩
      · exact absurd h (by simp)
      · exact absurd h (by simp)
  · exact absurd h (by simp)

/-! ## Reading a plain object -/

/-- **A plain object is read back from its text.** -/
theorem loads_object {member : Text × Json} {members : List (Text × Json)}
    (h : Plain (.obj (member :: members))) :
    loads (Json.print (.obj (member :: members)) ++ [0x0A])
      = some (ofJson (.obj (member :: members))) := by
  have hread : readValue ((Json.print (.obj (member :: members)) ++ [0x0A]).length + 1)
      (Json.print (.obj (member :: members)) ++ [0x0A])
        = some (ofJson (.obj (member :: members)), [0x0A]) := by
    have hmembers := readMembers_print member members h.1
      (Json.print (.obj (member :: members)) ++ [0x0A]).length [0x0A] (by
        simp only [Json.print, List.length_append, List.length_cons, List.length_nil]
        omega)
    obtain ⟨tail, hcons⟩ := printMembers_cons member members (0x7D :: [0x0A])
    rw [Json.print, List.cons_append, List.append_assoc, List.singleton_append] at hmembers ⊢
    rw [hcons] at hmembers ⊢
    rw [readValue, if_neg (by decide), if_pos rfl, skipSpace_cons rfl, expect_of_ne (by decide),
      hmembers]
    refine congrArg (fun members => some (Value.obj members, ([0x0A] : Text))) (ofPairs_of_nodup ?_)
    rw [ofMembers_eq, List.map_map]
    exact h.2
  have hspace : skipSpace (Json.print (.obj (member :: members)) ++ [0x0A])
      = Json.print (.obj (member :: members)) ++ [0x0A] := skipSpace_print _ _
  rw [loads, hspace, hread]
  rfl

/-! ## Writing a plain value -/

theorem printable_ofChar {c : Char} (h : c.isDigit = true) :
    Json.isPrintable (Text.ofChar c) = true := by
  have hdigit := Json.isDigit_ofChar h
  simp only [Json.isDigit, Bool.and_eq_true, decide_eq_true_eq, Fin.le_def] at hdigit
  have h0 : 0x30 ≤ (Text.ofChar c).val := hdigit.1
  have h9 : (Text.ofChar c).val ≤ 0x39 := hdigit.2
  simp only [Json.isPrintable, Bool.and_eq_true, decide_eq_true_eq]
  omega

theorem printable_printNat {n : Nat} {c : CodePoint} (h : c ∈ Json.printNat n) :
    Json.isPrintable c = true := by
  obtain ⟨d, hd, rfl⟩ := List.mem_map.mp h
  exact printable_ofChar (Nat.isDigit_of_mem_toDigits (by decide) (by decide) hd)

theorem printable_printInt {n : Int} {c : CodePoint} (h : c ∈ Json.printInt n) :
    Json.isPrintable c = true := by
  cases n with
  | ofNat n => exact printable_printNat h
  | negSucc n =>
      rcases List.mem_cons.mp h with rfl | h
      · decide
      · exact printable_printNat h

theorem printable_printString {t : Text} (ht : PlainText t) {c : CodePoint}
    (h : c ∈ Json.printString t) : Json.isPrintable c = true := by
  rw [Json.printString, PlainText.escape ht] at h
  rcases List.mem_cons.mp h with rfl | h
  · decide
  rcases List.mem_append.mp h with h | h
  · exact (ht c h).1
  · rw [List.mem_singleton.mp h]
    decide

theorem printable_word {word : Text} (hword : word.all Json.isPrintable = true) {c : CodePoint}
    (h : c ∈ word) : Json.isPrintable c = true := List.all_eq_true.mp hword c h

mutual

/-- **The text of a plain value is printable ASCII.** -/
theorem printable_print (v : Json) (hv : Plain v) {c : CodePoint} (h : c ∈ Json.print v) :
    Json.isPrintable c = true := by
  match v with
  | .null => exact printable_word (by decide) h
  | .bool true => exact printable_word (by decide) h
  | .bool false => exact printable_word (by decide) h
  | .int n => exact printable_printInt h
  | .str t => exact printable_printString hv h
  | .arr items =>
      rw [Json.print, List.mem_cons, List.mem_append, List.mem_singleton] at h
      rcases h with rfl | h | rfl
      · decide
      · exact printable_printItems items hv h
      · decide
  | .obj members =>
      rw [Json.print, List.mem_cons, List.mem_append, List.mem_singleton] at h
      rcases h with rfl | h | rfl
      · decide
      · exact printable_printMembers members hv.1 h
      · decide

theorem printable_printItems (items : List Json) (hitems : PlainItems items) {c : CodePoint}
    (h : c ∈ Json.printItems items) : Json.isPrintable c = true := by
  match items with
  | [] => exact absurd h (by simp [Json.printItems])
  | [item] => exact printable_print item hitems.1 h
  | item :: next :: rest =>
      rw [Json.printItems, List.mem_append, List.mem_cons] at h
      · rcases h with h | rfl | h
        · exact printable_print item hitems.1 h
        · decide
        · exact printable_printItems (next :: rest) hitems.2 h
      · exact List.cons_ne_nil _ _

theorem printable_printMembers (members : List (Text × Json)) (hmembers : PlainMembers members)
    {c : CodePoint} (h : c ∈ Json.printMembers members) : Json.isPrintable c = true := by
  match members with
  | [] => exact absurd h (by simp [Json.printMembers])
  | [(key, value)] =>
      rw [Json.printMembers, List.mem_append, List.mem_cons] at h
      rcases h with h | rfl | h
      · exact printable_printString hmembers.1 h
      · decide
      · exact printable_print value hmembers.2.1 h
  | (key, value) :: next :: rest =>
      rw [Json.printMembers, List.mem_append, List.mem_append, List.mem_cons, List.mem_cons] at h
      · rcases h with (h | rfl | h) | rfl | h
        · exact printable_printString hmembers.1 h
        · decide
        · exact printable_print value hmembers.2.1 h
        · decide
        · exact printable_printMembers (next :: rest) hmembers.2.2 h
      · exact List.cons_ne_nil _ _

end

/-- A plain object whose members are sorted is written as it is printed. -/
theorem asciiBytes_plain {v : Json} (hv : Plain v) (hsorted : Json.sortKeys v = v) {bytes : Bytes}
    (h : Json.asciiBytes v = .ok bytes) : bytes = Text.utf8 (Json.print v) := by
  have hself : (Json.print v).flatMap Json.asciify = Json.print v := by
    refine (List.flatMap_congr fun c hc => ?_).trans (List.flatMap_singleton' _)
    exact if_pos (printable_print v hv hc)
  unfold Json.asciiBytes at h
  split at h
  · exact absurd h (by simp)
  · rw [← Except.ok.inj h, Json.dumpsAscii, Json.dumps, hsorted, hself]

/-- **A file that holds a plain object is read back.** -/
theorem read_canonical {member : Text × Json} {members : List (Text × Json)} {bytes : Bytes}
    (hv : Plain (.obj (member :: members)))
    (hsorted : Json.sortKeys (.obj (member :: members)) = .obj (member :: members))
    (h : Json.asciiBytes (.obj (member :: members)) = .ok bytes) :
    (asciiText (bytes ++ [0x0A])).bind loads = some (ofJson (.obj (member :: members))) := by
  have hascii : ∀ c ∈ Json.print (.obj (member :: members)), c.val < 128 := by
    intro c hc
    have := printable_print _ hv hc
    simp only [Json.isPrintable, Bool.and_eq_true, decide_eq_true_eq] at this
    omega
  rw [asciiBytes_plain hv hsorted h, asciiText_append_newline hascii, Option.bind_some,
    loads_object hv]

end JsonLoads
