import Mathlib

/-!
# Fixed-width positional numerals

A digit list, most significant digit first, denotes a number; a number below
`b ^ w` is denoted by exactly one list of `w` digits below `b`. Every wire format
that stores an integer in a fixed number of bytes, and every hexadecimal spelling
of a digest, is an instance of this one fact at `b = 256` or `b = 16`.

The numerals here have a fixed width, leading zeros included, so they are not
`Nat.digits`: two numerals of one width are equal exactly when their values are.
-/

namespace Positional

/-- The number a digit list denotes in base `b`, most significant digit first. -/
def value (b : Nat) (ds : List Nat) : Nat := ds.foldl (fun acc d => acc * b + d) 0

/-- The low `w` base-`b` digits of `n`, most significant first. -/
def digits (b : Nat) : Nat → Nat → List Nat
  | 0, _ => []
  | w + 1, n => digits b w (n / b) ++ [n % b]

/-- Every entry of the list is a base-`b` digit. -/
def IsNumeral (b : Nat) (ds : List Nat) : Prop := ∀ d ∈ ds, d < b

@[simp] theorem value_nil (b : Nat) : value b [] = 0 := rfl

theorem foldl_value (b : Nat) (ds : List Nat) (acc : Nat) :
    ds.foldl (fun acc d => acc * b + d) acc = acc * b ^ ds.length + value b ds := by
  induction ds generalizing acc with
  | nil => simp
  | cons d ds ih =>
      have hcons : value b (d :: ds) = d * b ^ ds.length + value b ds := by
        show ds.foldl _ (0 * b + d) = _
        rw [ih]; simp
      rw [List.foldl_cons, ih, hcons, List.length_cons, pow_succ]
      ring

theorem value_cons (b d : Nat) (ds : List Nat) :
    value b (d :: ds) = d * b ^ ds.length + value b ds := by
  show ds.foldl _ (0 * b + d) = _
  rw [foldl_value]; simp

theorem value_append (b : Nat) (xs ys : List Nat) :
    value b (xs ++ ys) = value b xs * b ^ ys.length + value b ys := by
  unfold value
  rw [List.foldl_append]
  exact foldl_value b ys _

theorem value_snoc (b d : Nat) (ds : List Nat) : value b (ds ++ [d]) = value b ds * b + d := by
  rw [value_append]; simp [value]

theorem value_replicate_zero (b n : Nat) : value b (List.replicate n 0) = 0 := by
  induction n with
  | zero => rfl
  | succ n ih => rw [List.replicate_succ, value_cons, ih]; simp

/-- A numeral of width `w` denotes a number below `b ^ w`. -/
theorem value_lt {b : Nat} {ds : List Nat} (h : IsNumeral b ds) : value b ds < b ^ ds.length := by
  induction ds with
  | nil => simp
  | cons d ds ih =>
      have hd : d + 1 ≤ b := h d (by simp)
      have hds := ih (fun x hx => h x (List.mem_cons_of_mem _ hx))
      have hmul := Nat.mul_le_mul_right (b ^ ds.length) hd
      rw [value_cons, List.length_cons, pow_succ, mul_comm (b ^ ds.length) b]
      rw [Nat.add_mul, one_mul] at hmul
      omega

@[simp] theorem length_digits (b w n : Nat) : (digits b w n).length = w := by
  induction w generalizing n with
  | zero => rfl
  | succ w ih => simp [digits, ih]

theorem isNumeral_digits {b : Nat} (hb : 0 < b) (w n : Nat) : IsNumeral b (digits b w n) := by
  induction w generalizing n with
  | zero => intro d hd; simp [digits] at hd
  | succ w ih =>
      intro d hd
      rcases List.mem_append.mp hd with h | h
      · exact ih _ d h
      · rw [List.mem_singleton.mp h]; exact Nat.mod_lt _ hb

/-- The digits, written out position by position. -/
theorem digits_eq_map_range (b w n : Nat) :
    digits b w n = (List.range w).map (fun i => n / b ^ (w - 1 - i) % b) := by
  induction w generalizing n with
  | zero => rfl
  | succ w ih =>
      rw [digits, ih, List.range_succ, List.map_append]
      refine congrArg₂ (· ++ ·) (List.map_congr_left fun i hi => ?_) (by simp)
      have hi' : i < w := List.mem_range.mp hi
      have hexp : w + 1 - 1 - i = w - 1 - i + 1 := by omega
      rw [hexp, pow_succ, mul_comm, Nat.div_div_eq_div_mul]

/-- **Reading back the digits that were written.** -/
theorem value_digits (b w n : Nat) : value b (digits b w n) = n % b ^ w := by
  induction w generalizing n with
  | zero => simp [digits, Nat.mod_one]
  | succ w ih =>
      rw [digits, value_snoc, ih, pow_succ, mul_comm (b ^ w) b, Nat.mod_mul]
      ring

theorem value_digits_of_lt {b w n : Nat} (h : n < b ^ w) : value b (digits b w n) = n := by
  rw [value_digits, Nat.mod_eq_of_lt h]

/-- **Writing back the number that was read.** -/
theorem digits_value {b : Nat} {ds : List Nat} (h : IsNumeral b ds) :
    digits b ds.length (value b ds) = ds := by
  induction ds using List.reverseRecOn with
  | nil => rfl
  | append_singleton ds d ih =>
      have hd : d < b := h d (by simp)
      have hrest : IsNumeral b ds := fun x hx => h x (List.mem_append_left _ hx)
      rw [value_snoc, List.length_append, List.length_singleton, digits,
        Nat.add_comm, Nat.add_mul_div_right _ _ (by omega), Nat.div_eq_of_lt hd, Nat.zero_add,
        ih hrest, Nat.add_mul_mod_self_right, Nat.mod_eq_of_lt hd]

/-- Two numerals of one width with one value are the same numeral. -/
theorem value_inj {b : Nat} {xs ys : List Nat} (hx : IsNumeral b xs) (hy : IsNumeral b ys)
    (hlen : xs.length = ys.length) (h : value b xs = value b ys) : xs = ys := by
  rw [← digits_value hx, ← digits_value hy, hlen, h]

/-- The numeral of a slice, read off the whole number by one division and one remainder. -/
theorem value_slice {b : Nat} {ds : List Nat} (h : IsNumeral b ds) {i w : Nat}
    (hw : i + w ≤ ds.length) :
    value b ((ds.drop i).take w) = value b ds / b ^ (ds.length - i - w) % b ^ w := by
  have hsplit : ds = ds.take i ++ ((ds.drop i).take w ++ (ds.drop i).drop w) := by
    rw [List.take_append_drop, List.take_append_drop]
  have hmid : ((ds.drop i).take w).length = w := by
    rw [List.length_take, List.length_drop]; omega
  have htail : ((ds.drop i).drop w).length = ds.length - i - w := by
    rw [List.length_drop, List.length_drop]
  have hnum : ∀ xs : List Nat, (∀ d ∈ xs, d ∈ ds) → IsNumeral b xs :=
    fun xs hxs d hd => h d (hxs d hd)
  have hlast := value_lt (hnum _ (fun d hd => List.mem_of_mem_drop (List.mem_of_mem_drop hd)) :
    IsNumeral b ((ds.drop i).drop w))
  have hmidlt := value_lt (hnum _ (fun d hd => List.mem_of_mem_drop (List.mem_of_mem_take hd)) :
    IsNumeral b ((ds.drop i).take w))
  rw [htail] at hlast
  rw [hmid] at hmidlt
  have hval : value b ds = (value b (ds.take i) * b ^ w + value b ((ds.drop i).take w))
      * b ^ (ds.length - i - w) + value b ((ds.drop i).drop w) := by
    conv_lhs => rw [hsplit]
    rw [value_append, value_append, List.length_append, hmid, htail, pow_add]
    ring
  rw [hval, Nat.add_comm (_ * _), Nat.add_mul_div_right _ _ (Nat.lt_of_le_of_lt (Nat.zero_le _) hlast),
    Nat.div_eq_of_lt hlast, Nat.zero_add, Nat.add_comm, Nat.add_mul_mod_self_right,
    Nat.mod_eq_of_lt hmidlt]

/-- **Regrouping.** Spelling each base-`b ^ k` digit in `k` base-`b` digits keeps the value. -/
theorem value_flatMap_digits {b k : Nat} {ds : List Nat} (h : IsNumeral (b ^ k) ds) :
    value b (ds.flatMap (digits b k)) = value (b ^ k) ds := by
  induction ds with
  | nil => rfl
  | cons d ds ih =>
      have hlen : (ds.flatMap (digits b k)).length = k * ds.length := by
        rw [List.length_flatMap]
        simp [mul_comm]
      rw [List.flatMap_cons, value_append, value_cons, hlen, pow_mul,
        value_digits_of_lt (h d (by simp)), ih (fun x hx => h x (List.mem_cons_of_mem _ hx))]

end Positional
