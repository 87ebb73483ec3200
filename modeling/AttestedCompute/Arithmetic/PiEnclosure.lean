import Mathlib

/-!
# A rational enclosure of π

`atan_inverse_bounds` and `machin_pi_bounds` of `tg_verifier/arithmetic.py`: two
consecutive sums of the alternating series of `arctan (1 / q)`, and Machin's identity
with the ends of the two enclosures crossed over.
-/

namespace AttestedCompute.Arithmetic

open Finset Filter Topology

/-- `Fraction(-1 if index % 2 else 1, (2 * index + 1) * q ** (2 * index + 1))` -/
def atanTerm (q index : Nat) : ℚ :=
  (if index % 2 = 1 then -1 else 1) / ((2 * index + 1) * q ^ (2 * index + 1) : Nat)

/-- `atan_inverse_bounds`; its two arguments are checked by `_require_int`, which the two
calls of `machin_pi_bounds` pass. -/
def atanInverseBounds (q lastIndex : Nat) : ℚ × ℚ :=
  let sum := ((List.range (lastIndex + 1)).map (atanTerm q)).sum
  let nextSum := sum + atanTerm q (lastIndex + 1)
  (min sum nextSum, max sum nextSum)

/-- `machin_pi_bounds` -/
def machinPiBounds : ℚ × ℚ :=
  let atan5 := atanInverseBounds 5 20
  let atan239 := atanInverseBounds 239 6
  (16 * atan5.1 - 4 * atan239.2, 16 * atan5.2 - 4 * atan239.1)

def PI_LOWER : ℚ := machinPiBounds.1

def PI_UPPER : ℚ := machinPiBounds.2

/-- `SQUAREFREE_DENSITY_LOWER` -/
def SQUAREFREE_DENSITY_LOWER : ℚ := 6 / (PI_UPPER * PI_UPPER)

/-- `SQUAREFREE_DENSITY_UPPER` -/
def SQUAREFREE_DENSITY_UPPER : ℚ := 6 / (PI_LOWER * PI_LOWER)

/-! ## The alternating series -/

/-- The size of a term. -/
noncomputable def atanSize (q i : Nat) : ℝ := ((q : ℝ)⁻¹) ^ (2 * i + 1) / (2 * i + 1)

theorem atanTerm_cast (q i : Nat) : ((atanTerm q i : ℚ) : ℝ) = (-1) ^ i * atanSize q i := by
  unfold atanTerm atanSize
  rcases Nat.mod_two_eq_zero_or_one i with h | h
  · rw [if_neg (by omega), (Nat.even_iff.mpr h).neg_one_pow]
    push_cast
    rw [inv_pow, div_eq_mul_inv, div_eq_mul_inv, mul_inv]
    ring
  · rw [if_pos h, (Nat.odd_iff.mpr h).neg_one_pow]
    push_cast
    rw [inv_pow, div_eq_mul_inv, div_eq_mul_inv, mul_inv]
    ring

theorem atanSize_antitone {q : Nat} (hq : 2 ≤ q) : Antitone (atanSize q) := by
  have hq' : (2 : ℝ) ≤ q := by exact_mod_cast hq
  have hinv : ((q : ℝ)⁻¹) ≤ 1 := inv_le_one_of_one_le₀ (by linarith)
  intro i j hij
  unfold atanSize
  have hden : (2 * (i : ℝ) + 1) ≤ 2 * j + 1 := by
    have : (i : ℝ) ≤ j := by exact_mod_cast hij
    linarith
  exact div_le_div₀ (by positivity) (pow_le_pow_of_le_one (by positivity) hinv (by omega))
    (by positivity) hden

theorem tendsto_atanSums {q : Nat} (hq : 2 ≤ q) :
    Tendsto (fun n => ∑ i ∈ range n, (-1) ^ i * atanSize q i) atTop (𝓝 (Real.arctan (q : ℝ)⁻¹)) := by
  have hq' : (2 : ℝ) ≤ q := by exact_mod_cast hq
  have hnorm : ‖((q : ℝ)⁻¹)‖ < 1 := by
    rw [norm_inv, Real.norm_of_nonneg (by linarith)]
    exact inv_lt_one_of_one_lt₀ (by linarith)
  have hsum := (Real.hasSum_arctan hnorm).tendsto_sum_nat
  refine hsum.congr fun n => sum_congr rfl fun i _ => ?_
  unfold atanSize
  push_cast
  rw [mul_div_assoc]

theorem atanSum_cast (q n : Nat) :
    ((((List.range n).map (atanTerm q)).sum : ℚ) : ℝ) = ∑ i ∈ range n, (-1) ^ i * atanSize q i := by
  induction n with
  | zero => simp
  | succ n ih =>
      rw [List.range_succ, List.map_append, List.sum_append, Rat.cast_add, ih, sum_range_succ]
      simp [atanTerm_cast]

/-- **Two consecutive sums enclose the arctangent.** -/
theorem atanInverseBounds_enclose {q : Nat} (hq : 2 ≤ q) (lastIndex : Nat) :
    ((atanInverseBounds q lastIndex).1 : ℝ) ≤ Real.arctan (q : ℝ)⁻¹
      ∧ Real.arctan (q : ℝ)⁻¹ ≤ (atanInverseBounds q lastIndex).2 := by
  have hlimit := tendsto_atanSums hq
  have hdown := atanSize_antitone hq
  have hsum := atanSum_cast q (lastIndex + 1)
  have hnext : ((((List.range (lastIndex + 1)).map (atanTerm q)).sum
      + atanTerm q (lastIndex + 1) : ℚ) : ℝ) = ∑ i ∈ range (lastIndex + 2), (-1) ^ i * atanSize q i := by
    rw [Rat.cast_add, hsum, atanTerm_cast, ← sum_range_succ]
  unfold atanInverseBounds
  dsimp only
  rw [Rat.cast_min, Rat.cast_max, hsum, hnext]
  -- one of the two sums has an even number of terms and lies below, the other above
  rcases Nat.even_or_odd' (lastIndex + 1) with ⟨k, hk | hk⟩
  · have hlow := hdown.alternating_series_le_tendsto hlimit k
    have hhigh := hdown.tendsto_le_alternating_series hlimit k
    rw [← hk] at hlow
    rw [← hk] at hhigh
    exact ⟨(min_le_left _ _).trans hlow, hhigh.trans (le_max_right _ _)⟩
  · have hlow := hdown.alternating_series_le_tendsto hlimit (k + 1)
    have hhigh := hdown.tendsto_le_alternating_series hlimit k
    rw [show 2 * (k + 1) = lastIndex + 2 by omega] at hlow
    rw [← hk] at hhigh
    exact ⟨(min_le_right _ _).trans hlow, hhigh.trans (le_max_left _ _)⟩

/-- **The enclosure is correct.** -/
theorem machinPiBounds_enclose : (PI_LOWER : ℝ) ≤ Real.pi ∧ Real.pi ≤ PI_UPPER := by
  obtain ⟨h5lo, h5hi⟩ := @atanInverseBounds_enclose 5 (by omega) 20
  obtain ⟨h239lo, h239hi⟩ := @atanInverseBounds_enclose 239 (by omega) 6
  have hmachin := Real.four_mul_arctan_inv_5_sub_arctan_inv_239
  push_cast at h5lo h5hi h239lo h239hi
  unfold PI_LOWER PI_UPPER machinPiBounds
  dsimp only
  push_cast
  constructor
  · linarith
  · linarith

theorem PI_LOWER_pos : 0 < PI_LOWER := by decide +kernel

/-- The two densities enclose `6 / π²`. -/
theorem density_enclose : (SQUAREFREE_DENSITY_LOWER : ℝ) ≤ 6 / Real.pi ^ 2
    ∧ 6 / Real.pi ^ 2 ≤ SQUAREFREE_DENSITY_UPPER := by
  obtain ⟨hlo, hhi⟩ := machinPiBounds_enclose
  have hpos : (0 : ℝ) < PI_LOWER := by exact_mod_cast PI_LOWER_pos
  have hpi := Real.pi_pos
  unfold SQUAREFREE_DENSITY_LOWER SQUAREFREE_DENSITY_UPPER
  push_cast
  rw [← pow_two, ← pow_two]
  exact ⟨div_le_div_of_nonneg_left (by norm_num) (by positivity) (pow_le_pow_left₀ hpi.le hhi 2),
    div_le_div_of_nonneg_left (by norm_num) (by positivity) (pow_le_pow_left₀ hpos.le hlo 2)⟩

end AttestedCompute.Arithmetic
