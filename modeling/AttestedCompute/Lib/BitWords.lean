import Mathlib

/-!
# Bit vectors packed into words

A vector of `n` bits held in natural numbers of `w` bits each, the last one padded with
zeros. `Packs` says which set of positions the words stand for; every operation is one
lemma about that set, and words that stand for the same set are equal (`Packs.eq_of_iff`).
-/

namespace BitWords

variable {w n : Nat}

/-- Bit `i` of the vector. -/
def bit (w : Nat) (words : List Nat) (i : Nat) : Bool := (words.getD (i / w) 0).testBit (i % w)

/-- The words hold the positions below `n` where `p` is true, and nothing else. -/
structure Packs (w n : Nat) (words : List Nat) (p : Nat → Prop) : Prop where
  length : words.length = (n + w - 1) / w
  bound : ∀ x ∈ words, x < 2 ^ w
  bits : ∀ i, bit w words i = true ↔ i < n ∧ p i

/-- `n` ones. -/
def full (w n : Nat) : List Nat :=
  let words := List.replicate ((n + w - 1) / w) (2 ^ w - 1)
  if n % w ≠ 0 then words.modify (words.length - 1) fun x => x &&& ((1 <<< (n % w)) - 1) else words

/-- `n` zeros. -/
def empty (w n : Nat) : List Nat := List.replicate ((n + w - 1) / w) 0

/-- `words[i // w] &= ~(1 << (i % w))` -/
def clear (w : Nat) (words : List Nat) (i : Nat) : List Nat :=
  words.modify (i / w) fun x => Nat.ldiff x (1 <<< (i % w))

/-- `words[i // w] |= 1 << (i % w)` -/
def set (w : Nat) (words : List Nat) (i : Nat) : List Nat :=
  words.modify (i / w) fun x => x ||| (1 <<< (i % w))

/-! ## Words from their bits -/

theorem bit_word (hw : 0 < w) {words : List Nat} {j b : Nat} (hb : b < w) :
    bit w words (w * j + b) = (words.getD j 0).testBit b := by
  rw [bit, Nat.mul_add_div hw, Nat.div_eq_of_lt hb, Nat.add_zero, Nat.mul_add_mod,
    Nat.mod_eq_of_lt hb]

/-- **A window of one word length that straddles two words.** -/
theorem bit_window (hw : 0 < w) {words : List Nat} {j s b : Nat} (hs : s < w) (hb : b < w)
    (hlow : words.getD j 0 < 2 ^ w) :
    ((words.getD j 0 >>> s ||| words.getD (j + 1) 0 <<< (w - s)) &&& (2 ^ w - 1)).testBit b
      = bit w words (w * j + s + b) := by
  rw [Nat.testBit_and, Nat.testBit_two_pow_sub_one, Nat.testBit_or, Nat.testBit_shiftRight,
    Nat.testBit_shiftLeft]
  by_cases hcarry : s + b < w
  · have hlo : ¬ b ≥ w - s := by omega
    rw [Nat.add_assoc, bit_word hw hcarry]
    simp [hb, hlo]
  · -- the first word has no such bit, and the second starts there
    have hhi : b ≥ w - s := by omega
    have hzero : (words.getD j 0).testBit (s + b) = false :=
      Nat.testBit_lt_two_pow
        (hlow.trans_le (Nat.pow_le_pow_right (by decide) (not_lt.mp hcarry)))
    have hpos : w * j + s + b = w * (j + 1) + (b - (w - s)) := by
      rw [Nat.mul_add, Nat.mul_one]
      omega
    rw [hpos, bit_word hw (by omega), hzero]
    simp [hb, hhi]

theorem words_eq_of_bit (hw : 0 < w) {xs ys : List Nat} (hlen : xs.length = ys.length)
    (hx : ∀ x ∈ xs, x < 2 ^ w) (hy : ∀ y ∈ ys, y < 2 ^ w) (h : ∀ i, bit w xs i = bit w ys i) :
    xs = ys := by
  refine List.ext_getElem hlen fun j hjx hjy => Nat.eq_of_testBit_eq fun b => ?_
  by_cases hb : b < w
  · have hbit := h (w * j + b)
    rw [bit_word hw hb, bit_word hw hb, List.getD_eq_getElem _ _ hjx,
      List.getD_eq_getElem _ _ hjy] at hbit
    exact hbit
  · -- past the width of a word both bits are zero
    have hpow : 2 ^ w ≤ 2 ^ b := Nat.pow_le_pow_right (by decide) (not_lt.mp hb)
    rw [Nat.testBit_lt_two_pow ((hx _ (List.getElem_mem hjx)).trans_le hpow),
      Nat.testBit_lt_two_pow ((hy _ (List.getElem_mem hjy)).trans_le hpow)]

/-- **Words that hold the same positions are equal.** -/
theorem Packs.eq_of_iff (hw : 0 < w) {xs ys : List Nat} {p q : Nat → Prop} (hx : Packs w n xs p)
    (hy : Packs w n ys q) (h : ∀ i < n, p i ↔ q i) : xs = ys := by
  refine words_eq_of_bit hw (hx.length.trans hy.length.symm) hx.bound hy.bound fun i => ?_
  rw [Bool.eq_iff_iff, hx.bits, hy.bits]
  exact and_congr_right (h i)

theorem Packs.congr {words : List Nat} {p q : Nat → Prop} (h : Packs w n words p)
    (hpq : ∀ i < n, p i ↔ q i) : Packs w n words q where
  length := h.length
  bound := h.bound
  bits i := by
    rw [h.bits]
    exact and_congr_right (hpq i)

/-! ## The operations -/

theorem div_lt_wordCount (hw : 0 < w) {i : Nat} (hi : i < n) : i / w < (n + w - 1) / w := by
  have hle : (i + w) / w ≤ (n + w - 1) / w := Nat.div_le_div_right (by omega)
  rw [Nat.add_div_right _ hw] at hle
  omega

theorem getD_modify (words : List Nat) (f : Nat → Nat) {j : Nat} (hj : j < words.length) (k : Nat) :
    (words.modify j f).getD k 0 = if k = j then f (words.getD k 0) else words.getD k 0 := by
  simp only [List.getD_eq_getElem?_getD, List.getElem?_modify]
  by_cases hk : k = j
  · subst hk
    simp [List.getElem?_eq_getElem hj]
  · simp [hk, Ne.symm hk]

theorem bit_modify (hw : 0 < w) {words : List Nat} {i j : Nat} {f : Nat → Nat}
    (hi : i / w < words.length) (hf : ∀ x b, b < w → b ≠ i % w → (f x).testBit b = x.testBit b) :
    bit w (words.modify (i / w) f) j
      = if j = i then (f (words.getD (i / w) 0)).testBit (i % w) else bit w words j := by
  unfold bit
  rw [getD_modify words f hi]
  by_cases hji : j = i
  · rw [hji, if_pos rfl, if_pos rfl]
  · rw [if_neg hji]
    split
    · rename_i hdiv
      refine hf _ _ (Nat.mod_lt _ hw) fun hmod => hji ?_
      rw [← Nat.div_add_mod j w, ← Nat.div_add_mod i w, hdiv, hmod]
    · rfl

theorem bound_modify {words : List Nat} {k : Nat} {f : Nat → Nat}
    (h : ∀ x ∈ words, x < 2 ^ w) (hf : ∀ x, x < 2 ^ w → f x < 2 ^ w) :
    ∀ x ∈ words.modify k f, x < 2 ^ w := by
  intro x hx
  obtain ⟨j, hj⟩ := List.mem_iff_getElem?.mp hx
  rw [List.getElem?_modify] at hj
  cases hword : words[j]? with
  | none => rw [hword] at hj; cases hj
  | some y =>
      have hy := h y (List.mem_of_getElem? hword)
      rw [hword] at hj
      injection hj with hj
      rw [← hj]
      split
      · exact hf y hy
      · exact hy

theorem testBit_one_shift (i b : Nat) : (1 <<< i).testBit b = decide (b = i) := by
  rw [Nat.one_shiftLeft, Nat.testBit_two_pow]
  exact decide_eq_decide.mpr eq_comm

theorem packs_clear (hw : 0 < w) {words : List Nat} {p : Nat → Prop} (h : Packs w n words p)
    {i : Nat} (hi : i < n) : Packs w n (clear w words i) fun j => p j ∧ j ≠ i where
  length := by rw [clear, List.length_modify, h.length]
  bound := by
    refine bound_modify h.bound fun x hx => ?_
    refine Nat.lt_of_le_of_lt (Nat.le_of_testBit fun b hb => ?_) hx
    rw [Nat.testBit_ldiff, Bool.and_eq_true] at hb
    exact hb.1
  bits j := by
    have hlt : i / w < words.length := h.length ▸ div_lt_wordCount hw hi
    rw [clear, bit_modify hw hlt fun x b _ hb => by
      rw [Nat.testBit_ldiff, testBit_one_shift, decide_eq_false hb, Bool.not_false, Bool.and_true]]
    by_cases hji : j = i
    · rw [if_pos hji, Nat.testBit_ldiff, testBit_one_shift]
      simp [hji]
    · rw [if_neg hji, h.bits]
      simp [hji]

theorem packs_set (hw : 0 < w) {words : List Nat} {p : Nat → Prop} (h : Packs w n words p)
    {i : Nat} (hi : i < n) : Packs w n (set w words i) fun j => p j ∨ j = i where
  length := by rw [set, List.length_modify, h.length]
  bound := by
    refine bound_modify h.bound fun x hx => Nat.or_lt_two_pow hx ?_
    rw [Nat.one_shiftLeft]
    exact Nat.pow_lt_pow_right (by decide) (Nat.mod_lt _ hw)
  bits j := by
    have hlt : i / w < words.length := h.length ▸ div_lt_wordCount hw hi
    rw [set, bit_modify hw hlt fun x b _ hb => by
      rw [Nat.testBit_or, testBit_one_shift, decide_eq_false hb, Bool.or_false]]
    by_cases hji : j = i
    · rw [if_pos hji, Nat.testBit_or, testBit_one_shift]
      simp [hji, hi]
    · rw [if_neg hji, h.bits]
      simp [hji]

/-- Clearing a list of positions removes exactly these. -/
theorem packs_clear_all (hw : 0 < w) {words : List Nat} {p : Nat → Prop} (h : Packs w n words p)
    {offsets : List Nat} (hoff : ∀ i ∈ offsets, i < n) :
    Packs w n (offsets.foldl (clear w) words) fun j => p j ∧ j ∉ offsets := by
  induction offsets generalizing words p with
  | nil => exact h.congr fun j _ => by simp
  | cons i offsets ih =>
      have hclear := packs_clear hw h (hoff i List.mem_cons_self)
      have hrest := ih hclear fun k hk => hoff k (List.mem_cons_of_mem i hk)
      exact hrest.congr fun j _ => by rw [List.mem_cons, not_or, and_assoc]

theorem packs_empty (w n : Nat) : Packs w n (empty w n) fun _ => False where
  length := List.length_replicate
  bound x hx := by
    rw [List.eq_of_mem_replicate hx]
    exact Nat.two_pow_pos w
  bits i := by
    have hzero : (empty w n).getD (i / w) 0 = 0 := by
      rw [List.getD_eq_getElem?_getD, empty, List.getElem?_replicate]
      split <;> rfl
    rw [bit, hzero, Nat.zero_testBit]
    simp

theorem getD_replicate (count x k : Nat) :
    (List.replicate count x).getD k 0 = if k < count then x else 0 := by
  rw [List.getD_eq_getElem?_getD, List.getElem?_replicate]
  split <;> rfl

/-- The words of `n` ones: whole words, and the bits past the last whole one. -/
theorem getD_full (hw : 0 < w) {q r : Nat} (hr : r < w) (k : Nat) :
    (full w (w * q + r)).getD k 0 = if k < q then 2 ^ w - 1 else if k = q then 2 ^ r - 1 else 0 := by
  have hmod : (w * q + r) % w = r := by rw [Nat.mul_add_mod, Nat.mod_eq_of_lt hr]
  unfold full
  rw [hmod]
  by_cases hzero : r = 0
  · subst hzero
    have hcount : (w * q + 0 + w - 1) / w = q := by
      rw [Nat.add_zero, Nat.add_sub_assoc hw, Nat.mul_add_div hw, Nat.div_eq_of_lt (by omega),
        Nat.add_zero]
    rw [if_neg (by simp), hcount, getD_replicate]
    simp
  · have hcount : (w * q + r + w - 1) / w = q + 1 := by
      rw [show w * q + r + w - 1 = w * q + (w + (r - 1)) by omega, Nat.mul_add_div hw,
        Nat.add_div_left _ hw, Nat.div_eq_of_lt (by omega)]
    have hand : (2 ^ w - 1) &&& (1 <<< r - 1) = 2 ^ r - 1 := by
      have hpow : 2 ^ r ≤ 2 ^ w := Nat.pow_le_pow_right (by decide) hr.le
      rw [Nat.one_shiftLeft, Nat.and_comm, Nat.and_two_pow_sub_one_eq_mod,
        Nat.mod_eq_of_lt (by have := Nat.two_pow_pos r; omega)]
    rw [if_pos hzero, hcount, List.length_replicate, Nat.add_sub_cancel,
      getD_modify _ _ (by rw [List.length_replicate]; omega), getD_replicate]
    by_cases hk : k = q
    · rw [if_pos hk, if_pos (by omega), if_neg (by omega), if_pos hk, hand]
    · rw [if_neg hk, if_neg hk]
      by_cases hlt : k < q
      · rw [if_pos (by omega), if_pos hlt]
      · rw [if_neg (by omega), if_neg hlt]

theorem packs_full (hw : 0 < w) (n : Nat) : Packs w n (full w n) fun _ => True where
  length := by
    unfold full
    simp only
    split
    · rw [List.length_modify, List.length_replicate]
    · rw [List.length_replicate]
  bound := by
    have hones : ∀ x ∈ List.replicate ((n + w - 1) / w) (2 ^ w - 1), x < 2 ^ w := by
      intro x hx
      rw [List.eq_of_mem_replicate hx]
      exact Nat.sub_one_lt (Nat.two_pow_pos w).ne'
    unfold full
    simp only
    split
    · exact bound_modify hones fun x hx => Nat.lt_of_le_of_lt Nat.and_le_left hx
    · exact hones
  bits i := by
    -- the vector ends after `q` whole words and `r` bits
    obtain ⟨q, r, hr, rfl⟩ : ∃ q r, r < w ∧ n = w * q + r :=
      ⟨n / w, n % w, Nat.mod_lt _ hw, (Nat.div_add_mod n w).symm⟩
    obtain ⟨a, b, hb, rfl⟩ : ∃ a b, b < w ∧ i = w * a + b :=
      ⟨i / w, i % w, Nat.mod_lt _ hw, (Nat.div_add_mod i w).symm⟩
    rw [bit_word hw hb, getD_full hw hr]
    rcases Nat.lt_trichotomy a q with hq | rfl | hq
    · have hle := Nat.mul_le_mul_left w hq
      rw [Nat.mul_succ] at hle
      rw [if_pos hq, Nat.testBit_two_pow_sub_one]
      simp only [hb, decide_true, and_true, true_iff]
      omega
    · rw [if_neg (lt_irrefl a), if_pos rfl, Nat.testBit_two_pow_sub_one]
      simp
    · have hle := Nat.mul_le_mul_left w hq
      rw [Nat.mul_succ] at hle
      rw [if_neg (by omega), if_neg (by omega), Nat.zero_testBit]
      simp only [Bool.false_eq_true, and_true, false_iff]
      omega

end BitWords
