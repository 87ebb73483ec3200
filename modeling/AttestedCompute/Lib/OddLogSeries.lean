import Mathlib

/-!
# Logarithms from the odd series

`log ((1 + z) / (1 - z))` is twice the sum of `z ^ (2 * i + 1) / (2 * i + 1)`. For `z` between
zero and one all terms are nonnegative, so a finite sum is a lower bound, and the rest is at most
a geometric series with the first missing denominator.
-/

namespace OddLogSeries

open Finset

/-- The sum of the first `n` terms. -/
noncomputable def partialSum (z : ℝ) (n : ℕ) : ℝ := ∑ i ∈ range n, z ^ (2 * i + 1) / (2 * i + 1 : ℕ)

/-- What the missing terms are at most. -/
noncomputable def tailBound (z : ℝ) (n : ℕ) : ℝ := z ^ (2 * n + 1) / ((2 * n + 1 : ℕ) * (1 - z ^ 2))

variable {z : ℝ} {n : ℕ}

/-- The terms from `n` on sum up to what the finite sum leaves. -/
theorem hasSum_rest (hz : 0 ≤ z) (hz' : z < 1) (n : ℕ) :
    HasSum (fun i => z ^ (2 * (i + n) + 1) / (2 * (i + n) + 1 : ℕ))
      (1 / 2 * Real.log ((1 + z) / (1 - z)) - partialSum z n) := by
  have habs : |z| < 1 := by rwa [abs_of_nonneg hz]
  have hseries := (Real.hasSum_log_sub_log_of_abs_lt_one habs).mul_left (1 / 2)
  rw [← Real.log_div (by linarith) (by linarith)] at hseries
  have hterm : ∀ i : ℕ, 1 / 2 * (2 * (1 / (2 * (i : ℝ) + 1)) * z ^ (2 * i + 1))
      = z ^ (2 * i + 1) / (2 * i + 1 : ℕ) := by
    intro i
    push_cast
    ring
  simp only [hterm] at hseries
  exact (hasSum_nat_add_iff' n).mpr hseries

theorem partialSum_le (hz : 0 ≤ z) (hz' : z < 1) :
    2 * partialSum z n ≤ Real.log ((1 + z) / (1 - z)) := by
  have hrest := (hasSum_rest hz hz' n).nonneg fun i => by positivity
  linarith

/-- **The geometric tail.** -/
theorem le_partialSum_add (hz : 0 ≤ z) (hz' : z < 1) :
    Real.log ((1 + z) / (1 - z)) ≤ 2 * partialSum z n + 2 * tailBound z n := by
  have hsquare : z ^ 2 < 1 := by nlinarith
  have hgeometric := (hasSum_geometric_of_lt_one (sq_nonneg z) hsquare).mul_left
    (z ^ (2 * n + 1) / (2 * n + 1 : ℕ))
  have hbound : z ^ (2 * n + 1) / (2 * n + 1 : ℕ) * (1 - z ^ 2)⁻¹ = tailBound z n := by
    rw [tailBound, ← div_eq_mul_inv, div_div]
  have hterm : ∀ i : ℕ, z ^ (2 * (i + n) + 1) / (2 * (i + n) + 1 : ℕ)
      ≤ z ^ (2 * n + 1) / (2 * n + 1 : ℕ) * (z ^ 2) ^ i := by
    intro i
    have hpow : z ^ (2 * (i + n) + 1) = z ^ (2 * n + 1) * (z ^ 2) ^ i := by
      rw [← pow_mul, ← pow_add]
      congr 1
      ring
    rw [hpow, div_mul_eq_mul_div]
    exact div_le_div_of_nonneg_left (by positivity) (by positivity)
      (by exact_mod_cast (show 2 * n + 1 ≤ 2 * (i + n) + 1 by omega))
  have hrest := hasSum_le hterm (hasSum_rest hz hz' n) hgeometric
  rw [hbound] at hrest
  linarith

/-- The tail grows with its argument. -/
theorem tailBound_mono {w : ℝ} (hz : 0 ≤ z) (hzw : z ≤ w) (hw : w < 1) (n : ℕ) :
    tailBound z n ≤ tailBound w n := by
  have hpow := pow_le_pow_left₀ hz hzw (2 * n + 1)
  have hsquare : z ^ 2 ≤ w ^ 2 := pow_le_pow_left₀ hz hzw 2
  have hpos : 0 < 1 - w ^ 2 := by nlinarith
  have hw' : 0 ≤ w := hz.trans hzw
  unfold tailBound
  exact div_le_div₀ (by positivity) hpow (by positivity)
    (mul_le_mul_of_nonneg_left (by linarith) (by positivity))

theorem tailBound_nonneg (hz : 0 ≤ z) (hz' : z < 1) (n : ℕ) : 0 ≤ tailBound z n := by
  have hpos : 0 < 1 - z ^ 2 := by nlinarith
  unfold tailBound
  positivity

end OddLogSeries
