import AttestedCompute.Finite.Certificate
import AttestedCompute.Lib.OddLogSeries

/-!
# Fixed-point logarithms

`fixed_log_bounds` writes `n` as a power of two times a mantissa in `[1, 2)`, encloses `log 2` and
the logarithm of the mantissa by the same number of terms of the odd series, and rounds the
combined ends outward at the scale that was asked for. All of it is exact rational arithmetic.
-/

namespace AttestedCompute.Finite

open Fallible OddLogSeries

/-- `_MAX_SCALE_BITS` -/
def MAX_SCALE_BITS : Int := 4096

/-- `_MAX_SERIES_TERMS` -/
def MAX_SERIES_TERMS : Int := 4096

/-- `_floor` -/
def floor (value : ℚ) : Int := value.num / value.den

/-- The variables of the series loop. -/
structure SeriesState where
  partialSum : ℚ
  power : ℚ

/-- One turn of the series loop. -/
def addSeriesTerm (zSquared : ℚ) (s : SeriesState) (index : Nat) : SeriesState :=
  { partialSum := s.partialSum + s.power / (2 * index + 1 : Nat)
    power := s.power * zSquared }

/-- `_positive_log_series_bounds` -/
def positiveLogSeriesBounds (numerator denominator terms : Int) : Checked (ℚ × ℚ) := do
  checkInt "numerator" numerator 1
  checkInt "denominator" denominator 1
  checkInt "terms" terms 1
  failIf (terms > MAX_SERIES_TERMS) ("terms exceeds " ++ toString MAX_SERIES_TERMS)
  failIf (¬ (denominator ≤ numerator ∧ numerator ≤ 2 * denominator))
    "positive log series requires 1 <= numerator/denominator <= 2"
  let z : ℚ := Rat.divInt (numerator - denominator) (numerator + denominator)
  if z = 0 then pure (0, 0)
  else
    let zSquared := z * z
    let last := (List.range terms.toNat).foldl (addSeriesTerm zSquared) ⟨0, z⟩
    let lower := 2 * last.partialSum
    let remainder := 2 * last.power / ((2 * terms + 1 : Int) * (1 - zSquared))
    pure (lower, lower + remainder)

/-- `fixed_log_bounds` -/
def fixedLogBounds (prime scaleBits terms : Int) : Checked (Int × Int) := do
  checkInt "prime" prime 2
  checkInt "scale_bits" scaleBits 1
  failIf (scaleBits > MAX_SCALE_BITS) ("scale_bits exceeds " ++ toString MAX_SCALE_BITS)
  checkInt "terms" terms 1
  failIf (terms > MAX_SERIES_TERMS) ("terms exceeds " ++ toString MAX_SERIES_TERMS)
  let exponent := prime.toNat.size - 1
  let powerOfTwo : Int := (1 <<< exponent : Nat)
  let logTwo ← positiveLogSeriesBounds 2 1 terms
  let mantissa ← positiveLogSeriesBounds prime powerOfTwo terms
  let lower := exponent * logTwo.1 + mantissa.1
  let upper := exponent * logTwo.2 + mantissa.2
  let scale : Int := (1 <<< scaleBits.toNat : Nat)
  pure (floor (lower * scale), ceil (upper * scale))

theorem checkInt_ok {name : String} {value minimum : Int} (h : minimum ≤ value) :
    checkInt name value minimum = .ok () := failIf_ok.mpr (not_lt.mpr h)

theorem floor_eq (value : ℚ) : floor value = ⌊value⌋ := by
  rw [floor, Rat.floor_def']

/-! ## The series -/

/-- The loop adds the terms and raises the power. -/
theorem foldl_addSeriesTerm (z : ℚ) (n : Nat) :
    (((List.range n).foldl (addSeriesTerm (z * z)) ⟨0, z⟩).partialSum : ℝ) = partialSum z n
      ∧ ((List.range n).foldl (addSeriesTerm (z * z)) ⟨0, z⟩).power = z ^ (2 * n + 1) := by
  induction n with
  | zero => simp [partialSum]
  | succ n ih =>
      obtain ⟨hsum, hpower⟩ := ih
      rw [List.range_succ, List.foldl_append, List.foldl_cons, List.foldl_nil]
      generalize (List.range n).foldl (addSeriesTerm (z * z)) ⟨0, z⟩ = s at hsum hpower ⊢
      unfold addSeriesTerm
      dsimp only
      refine ⟨?_, ?_⟩
      · rw [Rat.cast_add, hsum, hpower, partialSum, partialSum, Finset.sum_range_succ]
        push_cast
        rfl
      · rw [hpower]
        ring

/-- **The two ends of a series** around the logarithm of a ratio in `[1, 2]`. -/
structure SeriesEncloses (ratio : ℝ) (terms : Nat) (bounds : ℚ × ℚ) : Prop where
  lower : (bounds.1 : ℝ) ≤ Real.log ratio
  upper : Real.log ratio ≤ bounds.2
  width : (bounds.2 : ℝ) - bounds.1 ≤ 2 * tailBound (1 / 3) terms

/-- The argument of the series is small, and the series is about the ratio. -/
theorem series_argument {numerator denominator : Int} (hd : 1 ≤ denominator)
    (hle : denominator ≤ numerator) (hge : numerator ≤ 2 * denominator) :
    0 ≤ ((numerator : ℝ) - denominator) / (numerator + denominator)
      ∧ ((numerator : ℝ) - denominator) / (numerator + denominator) ≤ 1 / 3
      ∧ (1 + ((numerator : ℝ) - denominator) / (numerator + denominator))
          / (1 - ((numerator : ℝ) - denominator) / (numerator + denominator))
        = (numerator : ℝ) / denominator := by
  have hd' : (1 : ℝ) ≤ denominator := by exact_mod_cast hd
  have hle' : (denominator : ℝ) ≤ numerator := by exact_mod_cast hle
  have hge' : (numerator : ℝ) ≤ 2 * denominator := by exact_mod_cast hge
  have hsum : (0 : ℝ) < numerator + denominator := by linarith
  have hplus : 1 + ((numerator : ℝ) - denominator) / (numerator + denominator)
      = 2 * numerator / (numerator + denominator) := by
    rw [eq_div_iff hsum.ne', add_mul, div_mul_cancel₀ _ hsum.ne']
    ring
  have hminus : 1 - ((numerator : ℝ) - denominator) / (numerator + denominator)
      = 2 * denominator / (numerator + denominator) := by
    rw [eq_div_iff hsum.ne', sub_mul, div_mul_cancel₀ _ hsum.ne']
    ring
  refine ⟨div_nonneg (by linarith) hsum.le, ?_, ?_⟩
  · rw [div_le_iff₀ hsum]
    linarith
  · rw [hplus, hminus, div_div_div_cancel_right₀ hsum.ne',
      mul_div_mul_left _ _ (two_ne_zero)]

theorem positiveLogSeriesBounds_encloses {numerator denominator terms : Int} (hd : 1 ≤ denominator)
    (hle : denominator ≤ numerator) (hge : numerator ≤ 2 * denominator) (ht : 1 ≤ terms)
    (ht' : terms ≤ MAX_SERIES_TERMS) :
    ∃ bounds, positiveLogSeriesBounds numerator denominator terms = .ok bounds
      ∧ SeriesEncloses ((numerator : ℝ) / denominator) terms.toNat bounds := by
  obtain ⟨hz, hz', hratio⟩ := series_argument hd hle hge
  have hcast : ((Rat.divInt (numerator - denominator) (numerator + denominator) : ℚ) : ℝ)
      = ((numerator : ℝ) - denominator) / (numerator + denominator) := by
    rw [Rat.divInt_eq_div]
    push_cast
    rfl
  unfold positiveLogSeriesBounds
  rw [checkInt_ok (hd.trans hle), ok_bind, checkInt_ok hd, ok_bind, checkInt_ok ht, ok_bind,
    (failIf_ok (u := ())).mpr (not_lt.mpr ht'), ok_bind,
    (failIf_ok (u := ())).mpr (not_not.mpr ⟨hle, hge⟩), ok_bind]
  dsimp only
  generalize Rat.divInt (numerator - denominator) (numerator + denominator) = z at hcast ⊢
  rw [← hcast] at hz hz' hratio
  have hlt : (z : ℝ) < 1 := by linarith
  rw [← hratio]
  by_cases hzero : z = 0
  · rw [if_pos hzero]
    refine ⟨_, rfl, ?_, ?_, ?_⟩
    · simp [hzero]
    · simp [hzero]
    · have htail := tailBound_nonneg (by norm_num : (0 : ℝ) ≤ 1 / 3) (by norm_num) terms.toNat
      simpa using htail
  · rw [if_neg hzero]
    obtain ⟨hsum, hpower⟩ := foldl_addSeriesTerm z terms.toNat
    generalize (List.range terms.toNat).foldl (addSeriesTerm (z * z)) ⟨0, z⟩ = last
      at hsum hpower ⊢
    have hterms : ((2 * terms + 1 : Int) : ℝ) = (2 * terms.toNat + 1 : ℕ) := by
      have hnat : (2 * terms + 1 : Int) = (2 * terms.toNat + 1 : ℕ) := by omega
      rw [hnat, Int.cast_natCast]
    have hrest : ((2 * last.power / ((2 * terms + 1 : Int) * (1 - z * z)) : ℚ) : ℝ)
        = 2 * tailBound z terms.toNat := by
      rw [hpower, tailBound, ← hterms]
      push_cast
      ring
    have hlower : ((2 * last.partialSum : ℚ) : ℝ) = 2 * partialSum z terms.toNat := by
      rw [Rat.cast_mul, hsum]
      norm_num
    refine ⟨_, rfl, ?_, ?_, ?_⟩
    · rw [hlower]
      exact partialSum_le hz hlt
    · rw [Rat.cast_add, hlower, hrest]
      exact le_partialSum_add hz hlt
    · rw [Rat.cast_add, hrest, add_sub_cancel_left]
      exact mul_le_mul_of_nonneg_left (tailBound_mono hz hz' (by norm_num) _) zero_le_two

/-! ## The fixed-point bounds -/

/-- The power of two below a number, and the next one above it. -/
theorem two_pow_size_bounds {n : ℕ} (hn : 0 < n) :
    2 ^ (n.size - 1) ≤ n ∧ n ≤ 2 * 2 ^ (n.size - 1) := by
  have hsize : 0 < n.size := Nat.size_pos.mpr hn
  refine ⟨Nat.lt_size.mp (by omega), ?_⟩
  rw [← Nat.pow_succ', Nat.succ_eq_add_one, Nat.sub_add_cancel hsize]
  exact (Nat.lt_size_self n).le

/-- Scaling and rounding outward keeps what is enclosed and costs at most one at each end. -/
theorem outward_encloses {lower upper : ℚ} {x : ℝ} (scale : ℕ) (hlower : (lower : ℝ) ≤ x)
    (hupper : x ≤ upper) :
    ((⌊lower * ((scale : ℤ) : ℚ)⌋ : ℝ)) ≤ scale * x ∧ scale * x ≤ (⌈upper * ((scale : ℤ) : ℚ)⌉ : ℝ)
      ∧ ((⌈upper * ((scale : ℤ) : ℚ)⌉ : ℝ)) - ⌊lower * ((scale : ℤ) : ℚ)⌋
          ≤ 2 + scale * ((upper : ℝ) - lower) := by
  have hscale : (0 : ℝ) ≤ scale := Nat.cast_nonneg scale
  have hscaled : ∀ q : ℚ, ((q * ((scale : ℤ) : ℚ) : ℚ) : ℝ) = scale * (q : ℝ) := by
    intro q
    push_cast
    ring
  have hfloor : ((lower * ((scale : ℤ) : ℚ) - 1 : ℚ) : ℝ) ≤ ⌊lower * ((scale : ℤ) : ℚ)⌋
      ∧ ((⌊lower * ((scale : ℤ) : ℚ)⌋ : ℝ)) ≤ ((lower * ((scale : ℤ) : ℚ) : ℚ) : ℝ) :=
    ⟨by exact_mod_cast (Int.sub_one_lt_floor _).le, by exact_mod_cast Int.floor_le _⟩
  have hceil : ((upper * ((scale : ℤ) : ℚ) : ℚ) : ℝ) ≤ ⌈upper * ((scale : ℤ) : ℚ)⌉
      ∧ ((⌈upper * ((scale : ℤ) : ℚ)⌉ : ℝ)) ≤ ((upper * ((scale : ℤ) : ℚ) + 1 : ℚ) : ℝ) :=
    ⟨by exact_mod_cast Int.le_ceil _, by exact_mod_cast (Int.ceil_lt_add_one _).le⟩
  rw [Rat.cast_sub, Rat.cast_one, hscaled] at hfloor
  rw [Rat.cast_add, Rat.cast_one, hscaled] at hceil
  have hlow := mul_le_mul_of_nonneg_left hlower hscale
  have hhigh := mul_le_mul_of_nonneg_left hupper hscale
  refine ⟨hfloor.2.trans hlow, hhigh.trans hceil.1, ?_⟩
  rw [mul_sub]
  linarith [hfloor.1, hceil.2]

/-- **A logarithm from its power of two and its mantissa.** -/
theorem combined_encloses {n terms : ℕ} (hn : 0 < n) {logTwo mantissa : ℚ × ℚ}
    (htwo : SeriesEncloses (((2 : ℤ) : ℝ) / ((1 : ℤ) : ℝ)) terms logTwo)
    (hrest : SeriesEncloses (((n : ℤ) : ℝ) / (((2 ^ (n.size - 1) : ℕ) : ℤ) : ℝ)) terms mantissa) :
    (((n.size - 1 : ℕ) * logTwo.1 + mantissa.1 : ℚ) : ℝ) ≤ Real.log n
      ∧ Real.log n ≤ (((n.size - 1 : ℕ) * logTwo.2 + mantissa.2 : ℚ) : ℝ)
      ∧ (((n.size - 1 : ℕ) * logTwo.2 + mantissa.2 : ℚ) : ℝ)
          - (((n.size - 1 : ℕ) * logTwo.1 + mantissa.1 : ℚ) : ℝ)
        ≤ n.size * (2 * tailBound (1 / 3) terms) := by
  have hn0 : (0 : ℝ) < n := by exact_mod_cast hn
  have hpow0 : (0 : ℝ) < (2 ^ (n.size - 1) : ℕ) := by positivity
  have hexp : (0 : ℝ) ≤ (n.size - 1 : ℕ) := Nat.cast_nonneg _
  have hlog : Real.log n = (n.size - 1 : ℕ) * Real.log (((2 : ℤ) : ℝ) / ((1 : ℤ) : ℝ))
      + Real.log (((n : ℤ) : ℝ) / (((2 ^ (n.size - 1) : ℕ) : ℤ) : ℝ)) := by
    rw [Int.cast_natCast, Int.cast_natCast, Real.log_div hn0.ne' hpow0.ne', Nat.cast_pow,
      Real.log_pow]
    norm_num
  have hsize : (n.size : ℝ) = (n.size - 1 : ℕ) + 1 := by
    exact_mod_cast (Nat.sub_add_cancel (Nat.size_pos.mpr hn)).symm
  have hlow := mul_le_mul_of_nonneg_left htwo.lower hexp
  have hhigh := mul_le_mul_of_nonneg_left htwo.upper hexp
  have hwidth := mul_le_mul_of_nonneg_left htwo.width hexp
  rw [hlog, hsize]
  simp only [Rat.cast_add, Rat.cast_mul, Rat.cast_natCast]
  exact ⟨add_le_add hlow hrest.lower, add_le_add hhigh hrest.upper, by linarith [hrest.width]⟩

/-- **The enclosure of a fixed-point logarithm**, with the width that `terms` terms leave: the tail
of the series at `1/3`, once for each power of two and once for the mantissa. -/
theorem fixedLogBounds_encloses {n scaleBits terms : Int} (hn : 2 ≤ n) (hs : 1 ≤ scaleBits)
    (hs' : scaleBits ≤ MAX_SCALE_BITS) (ht : 1 ≤ terms) (ht' : terms ≤ MAX_SERIES_TERMS) :
    ∃ lo hi : Int, fixedLogBounds n scaleBits terms = .ok (lo, hi)
      ∧ (lo : ℝ) ≤ 2 ^ scaleBits.toNat * Real.log n
      ∧ 2 ^ scaleBits.toNat * Real.log n ≤ hi
      ∧ (hi : ℝ) - lo ≤ 2 + 2 ^ scaleBits.toNat * n.toNat.size
          * (2 * (1 / 3) ^ (2 * terms.toNat + 1) * 9 / (8 * (2 * terms.toNat + 1))) := by
  lift n to ℕ using (by omega)
  have hn' : 0 < n := by omega
  obtain ⟨hlow, hhigh⟩ := two_pow_size_bounds hn'
  obtain ⟨logTwo, hlogTwo, htwo⟩ := @positiveLogSeriesBounds_encloses 2 1 terms (by omega)
    (by omega) (by omega) ht ht'
  obtain ⟨mantissa, hmantissa, hrest⟩ := @positiveLogSeriesBounds_encloses n
    ((2 ^ (n.size - 1) : ℕ) : Int) terms (by exact_mod_cast Nat.one_le_two_pow)
    (by exact_mod_cast hlow) (by exact_mod_cast hhigh) ht ht'
  unfold fixedLogBounds
  rw [checkInt_ok hn, ok_bind, checkInt_ok hs, ok_bind,
    (failIf_ok (u := ())).mpr (not_lt.mpr hs'), ok_bind, checkInt_ok ht, ok_bind,
    (failIf_ok (u := ())).mpr (not_lt.mpr ht'), ok_bind]
  dsimp only
  rw [Int.toNat_natCast, Nat.shiftLeft_eq, Nat.one_mul, hlogTwo, ok_bind, hmantissa, ok_bind,
    Nat.shiftLeft_eq, Nat.one_mul]
  refine ⟨_, _, rfl, ?_⟩
  obtain ⟨hlower, hupper, hwidth⟩ := combined_encloses hn' htwo hrest
  obtain ⟨hfloor, hceil, hround⟩ := outward_encloses (2 ^ scaleBits.toNat) hlower hupper
  have htail : 2 * tailBound (1 / 3) terms.toNat
      = 2 * (1 / 3) ^ (2 * terms.toNat + 1) * 9 / (8 * (2 * terms.toNat + 1)) := by
    unfold tailBound
    push_cast
    field_simp
    norm_num
  have hscaled := mul_le_mul_of_nonneg_left hwidth (Nat.cast_nonneg (2 ^ scaleBits.toNat) : (0 : ℝ) ≤ _)
  rw [htail] at hscaled
  rw [floor_eq, ceil_eq, Int.cast_natCast]
  push_cast at hfloor hceil hround hscaled ⊢
  exact ⟨hfloor, hceil, by linarith⟩

/-- The enclosure of `log 8`, an exact power of two, from two terms at scale `2^10`. -/
theorem fixedLogBounds_encloses_eight :
    ∃ lo hi : Int, fixedLogBounds 8 10 2 = .ok (lo, hi)
      ∧ (lo : ℝ) ≤ 2 ^ (10 : Int).toNat * Real.log ((8 : Int) : ℝ)
      ∧ 2 ^ (10 : Int).toNat * Real.log ((8 : Int) : ℝ) ≤ hi
      ∧ (hi : ℝ) - lo ≤ 2 + 2 ^ (10 : Int).toNat * (8 : Int).toNat.size
          * (2 * (1 / 3) ^ (2 * (2 : Int).toNat + 1) * 9 / (8 * (2 * (2 : Int).toNat + 1))) :=
  fixedLogBounds_encloses (by decide) (by decide) (by decide) (by decide) (by decide)

end AttestedCompute.Finite
