import AttestedCompute.Hurst.Rows

/-!
# The published inequalities

What a row's checks are for: a Mertens sum of at most `0.571 √n`, a count of squarefree integers
within `0.0755 √y` and `0.0285 √y` of its mean, and a little Mertens sum, everywhere in its
interval, of at most `√(2/x)` and `1/(2 √x)`. The mean density is any number between the two
decimals of the source, and `6/π²` is one. The checks compare squares of integers instead; the two
are equivalent.
-/

namespace AttestedCompute.Hurst

/-- `|M(n)| ≤ 0.571 √n` -/
def HurstBound (s : PrefixDelta) (n : ℕ) : Prop :=
  kHurstLower ≤ n → ((1000 : ℕ) : ℝ) * |(s.mertens : ℝ)| ≤ ((571 : ℕ) : ℝ) * Real.sqrt n

/-- `|Q(y) - density * y| ≤ numerator / 2000 * √y`, at the row and at the limit from the right. -/
def SquarefreeBound (threshold numerator : ℕ) (s : PrefixDelta) (n : ℕ) : Prop :=
  threshold ≤ n → ∀ y, y = n ∨ (y = n + 1 ∧ n ≠ kSourceLimit) → ∀ density : ℝ,
    (kDensityLower : ℝ) ≤ kDensityDenominator * density →
    kDensityDenominator * density ≤ (kDensityUpper : ℝ) →
    ((2000 : ℕ) : ℝ) * |(s.squarefree : ℝ) - density * y| ≤ numerator * Real.sqrt y

/-- `|m(x)| ≤ √(2/x)`, or `|m(x)| ≤ 1/(2 √x)`, up to the right endpoint. -/
def LittleBound (stronger : Bool) (s : PrefixDelta) (right : ℕ) : Prop :=
  ∀ m : ℝ, (s.littleLower : ℝ) ≤ m → m ≤ s.littleUpper →
    if stronger then ((2 : ℕ) : ℝ) * |m| * Real.sqrt right ≤ kLittleScale
    else |m| * Real.sqrt right ≤ Real.sqrt ((2 : ℕ) : ℝ) * kLittleScale

/-- Everything a row is checked for. -/
structure RowBounds (s : PrefixDelta) (n : ℕ) : Prop where
  hurst : HurstBound s n
  b1 : SquarefreeBound kSquarefreeB1Threshold 151 s n
  b2 : SquarefreeBound kSquarefreeB2Threshold 57 s n
  little : n ≤ kLittle211Limit → LittleBound false s (rightEndpoint n)
  stronger : n ≥ kLittleStrongerLower ∧ n < kLittleStrongerLimit → LittleBound true s (n + 1)

/-- **The density of the squarefree integers** is between the decimals of the source. -/
theorem density_between :
    (kDensityLower : ℝ) ≤ kDensityDenominator * (6 / Real.pi ^ 2)
      ∧ kDensityDenominator * (6 / Real.pi ^ 2) ≤ (kDensityUpper : ℝ) := by
  have hlo := Real.pi_gt_d20
  have hhi := Real.pi_lt_d20
  have hpos : 0 < Real.pi ^ 2 := by positivity
  have hsqLo : (3.14159265358979323846 : ℝ) ^ 2 < Real.pi ^ 2 :=
    pow_lt_pow_left₀ hlo (by norm_num) (by decide)
  have hsqHi : Real.pi ^ 2 < (3.14159265358979323847 : ℝ) ^ 2 :=
    pow_lt_pow_left₀ hhi Real.pi_pos.le (by decide)
  unfold kDensityLower kDensityDenominator kDensityUpper
  rw [← mul_div_assoc, le_div_iff₀ hpos, div_le_iff₀ hpos]
  push_cast
  norm_num at hsqLo hsqHi ⊢
  exact ⟨by linarith, by linarith⟩

theorem hurstTest_iff (mertens : ℤ) (n : ℕ) :
    HurstTest mertens n ↔ ((1000 : ℕ) : ℝ) * |(mertens : ℝ)| ≤ ((571 : ℕ) : ℝ) * Real.sqrt n := by
  have hsquare : ((1000 : ℕ) : ℝ) * |(mertens : ℝ)| * (((1000 : ℕ) : ℝ) * |(mertens : ℝ)|)
      = ((1000000 * mertens * mertens : ℤ) : ℝ) := by
    rw [mul_mul_mul_comm, abs_mul_abs_self]
    push_cast
    ring
  have hbound : ((571 : ℕ) : ℝ) * ((571 : ℕ) : ℝ) * n = ((571 * 571 * (n : ℤ) : ℤ) : ℝ) := by
    push_cast
    ring
  rw [le_mul_sqrt_iff (Nat.cast_nonneg _) (Nat.cast_nonneg _), hsquare, hbound, Int.cast_le]
  refine ⟨Or.inr, fun h => h.elim (fun hzero => ?_) id⟩
  have hmertens : mertens = 0 := by
    have habs : |(mertens : ℝ)| ≤ 0 := by
      push_cast at hzero
      linarith
    exact_mod_cast abs_nonpos_iff.mp habs
  subst hmertens
  unfold HurstTest
  positivity

theorem sideTest_iff (deviation : ℤ) (y numerator : ℕ) :
    SideTest deviation y numerator
      ↔ (deviation : ℝ) * 2000 ≤ numerator * kDensityDenominator * Real.sqrt y := by
  have hcoefficient : 0 ≤ (numerator : ℝ) * kDensityDenominator := by
    unfold kDensityDenominator
    positivity
  have hcast : (deviation : ℝ) * 2000 * (deviation * 2000)
      ≤ numerator * kDensityDenominator * (numerator * kDensityDenominator) * y
      ↔ deviation * 2000 * (deviation * 2000)
        ≤ numerator * kDensityDenominator * (numerator * kDensityDenominator) * y := by
    exact_mod_cast Iff.rfl
  have hsign : (deviation : ℝ) * 2000 ≤ 0 ↔ deviation ≤ 0 := by
    rw [← Int.cast_nonpos (R := ℝ)]
    exact ⟨fun h => by linarith, fun h => by linarith⟩
  rw [le_mul_sqrt_iff hcoefficient (Nat.cast_nonneg _), hcast, hsign]
  rfl

/-- The two sides are the bound for all densities between the decimals. -/
theorem endpointTest_iff (squarefree : ℤ) (y numerator : ℕ) :
    EndpointTest squarefree y numerator ↔ ∀ density : ℝ,
      (kDensityLower : ℝ) ≤ kDensityDenominator * density →
      kDensityDenominator * density ≤ (kDensityUpper : ℝ) →
      ((2000 : ℕ) : ℝ) * |(squarefree : ℝ) - density * y| ≤ numerator * Real.sqrt y := by
  have hpos : (0 : ℝ) < kDensityDenominator := by
    unfold kDensityDenominator
    norm_num
  have hy : (0 : ℝ) ≤ y := Nat.cast_nonneg y
  unfold EndpointTest
  rw [sideTest_iff, sideTest_iff]
  unfold upperDeviation lowerDeviation
  push_cast
  refine ⟨fun h density hlo hhi => ?_, fun h => ?_⟩
  · obtain ⟨habove, hbelow⟩ := h
    have hmeanLo := mul_le_mul_of_nonneg_right hlo hy
    have hmeanHi := mul_le_mul_of_nonneg_right hhi hy
    have hscaled : kDensityDenominator * (2000 * |(squarefree : ℝ) - density * y|)
        ≤ kDensityDenominator * (numerator * Real.sqrt y) := by
      rcases abs_cases ((squarefree : ℝ) - density * y) with h | h
      · rw [h.1]
        linarith
      · rw [h.1]
        linarith
    exact le_of_mul_le_mul_left hscaled hpos
  · have hdecimals : (kDensityLower : ℝ) ≤ kDensityUpper := by
      exact_mod_cast (by decide : kDensityLower ≤ kDensityUpper)
    -- the two extreme densities give the two sides
    have habove := h (kDensityLower / kDensityDenominator)
      (by rw [mul_div_cancel₀ _ hpos.ne']) (by rwa [mul_div_cancel₀ _ hpos.ne'])
    have hbelow := h (kDensityUpper / kDensityDenominator)
      (by rwa [mul_div_cancel₀ _ hpos.ne']) (by rw [mul_div_cancel₀ _ hpos.ne'])
    have hscale : ∀ mean : ℝ,
        kDensityDenominator * (mean / kDensityDenominator * y) = mean * y := by
      intro mean
      rw [← mul_assoc, mul_div_cancel₀ _ hpos.ne']
    have hup := mul_le_mul_of_nonneg_left
      ((mul_le_mul_of_nonneg_left (le_abs_self _) (by norm_num)).trans habove) hpos.le
    have hdown := mul_le_mul_of_nonneg_left
      ((mul_le_mul_of_nonneg_left (neg_le_abs _) (by norm_num)).trans hbelow) hpos.le
    have hmeanLo := hscale kDensityLower
    have hmeanHi := hscale kDensityUpper
    exact ⟨by linarith, by linarith⟩

theorem littleTest_stronger_iff (value : ℤ) (right : ℕ) :
    LittleTest true right value
      ↔ ((2 : ℕ) : ℝ) * |(value : ℝ)| * Real.sqrt right ≤ kLittleScale := by
  have hscale : (0 : ℝ) ≤ kLittleScale := by
    unfold kLittleScale
    norm_num
  have hsquare : ((2 : ℕ) : ℝ) * |(value : ℝ)| * Real.sqrt right
      * (((2 : ℕ) : ℝ) * |(value : ℝ)| * Real.sqrt right)
      = ((4 * (right : ℤ) * |value| * |value| : ℤ) : ℝ) := by
    rw [mul_mul_mul_comm, Real.mul_self_sqrt (Nat.cast_nonneg _)]
    push_cast
    ring
  rw [mul_self_le_mul_self_iff (by positivity) hscale, hsquare]
  change 4 * (right : ℤ) * |value| * |value| ≤ kLittleScale * kLittleScale ↔ _
  exact_mod_cast Iff.rfl

theorem littleTest_iff (value : ℤ) (right : ℕ) :
    LittleTest false right value
      ↔ |(value : ℝ)| * Real.sqrt right ≤ Real.sqrt ((2 : ℕ) : ℝ) * kLittleScale := by
  have hscale : (0 : ℝ) ≤ kLittleScale := by
    unfold kLittleScale
    norm_num
  have hsquare : |(value : ℝ)| * Real.sqrt right * (|(value : ℝ)| * Real.sqrt right)
      = (((right : ℤ) * |value| * |value| : ℤ) : ℝ) := by
    rw [mul_mul_mul_comm, Real.mul_self_sqrt (Nat.cast_nonneg _)]
    push_cast
    ring
  have hbound : Real.sqrt ((2 : ℕ) : ℝ) * kLittleScale * (Real.sqrt ((2 : ℕ) : ℝ) * kLittleScale)
      = ((2 * kLittleScale * kLittleScale : ℤ) : ℝ) := by
    rw [mul_mul_mul_comm, Real.mul_self_sqrt (Nat.cast_nonneg _)]
    push_cast
    ring
  rw [mul_self_le_mul_self_iff (by positivity) (by positivity), hsquare, hbound, Int.cast_le]
  rfl

/-- The two ends of an interval bound all of it. -/
theorem littlePasses_iff {stronger : Bool} {s : PrefixDelta} {right : ℕ}
    (hordered : s.littleLower ≤ s.littleUpper) :
    LittlePasses stronger s right ↔ LittleBound stronger s right := by
  have hcast : (s.littleLower : ℝ) ≤ s.littleUpper := by exact_mod_cast hordered
  have hroot : 0 ≤ Real.sqrt (right : ℝ) := Real.sqrt_nonneg _
  have hends : ∀ m : ℝ, (s.littleLower : ℝ) ≤ m → m ≤ s.littleUpper →
      |m| ≤ |(s.littleLower : ℝ)| ∨ |m| ≤ |(s.littleUpper : ℝ)| := fun m hlo hhi =>
    le_max_iff.mp (abs_le_max_abs_abs hlo hhi)
  unfold LittlePasses LittleBound
  rcases stronger with _ | _
  · rw [littleTest_iff, littleTest_iff]
    refine ⟨fun h m hlo hhi => ?_, fun h => ⟨h _ le_rfl hcast, h _ hcast le_rfl⟩⟩
    rcases hends m hlo hhi with hle | hle
    · exact (mul_le_mul_of_nonneg_right hle hroot).trans h.1
    · exact (mul_le_mul_of_nonneg_right hle hroot).trans h.2
  · rw [littleTest_stronger_iff, littleTest_stronger_iff]
    refine ⟨fun h m hlo hhi => ?_, fun h => ⟨h _ le_rfl hcast, h _ hcast le_rfl⟩⟩
    have hscaled : ∀ x : ℝ, |m| ≤ |x| →
        ((2 : ℕ) : ℝ) * |m| * Real.sqrt right ≤ ((2 : ℕ) : ℝ) * |x| * Real.sqrt right :=
      fun x hle => mul_le_mul_of_nonneg_right
        (mul_le_mul_of_nonneg_left hle (Nat.cast_nonneg _)) hroot
    rcases hends m hlo hhi with hle | hle
    · exact (hscaled _ hle).trans h.1
    · exact (hscaled _ hle).trans h.2

theorem squarefreePasses_iff {threshold numerator : ℕ} {s : PrefixDelta} {n : ℕ} :
    SquarefreePasses threshold numerator s n ↔ SquarefreeBound threshold numerator s n := by
  unfold SquarefreePasses SquarefreeBound
  simp only [endpointTest_iff]
  refine ⟨fun h hreached y hy => ?_, fun h => ⟨fun hreached => h hreached n (Or.inl rfl),
    fun hreached hne => h hreached (n + 1) (Or.inr ⟨rfl, hne⟩)⟩⟩
  rcases hy with rfl | ⟨rfl, hne⟩
  · exact h.1 hreached
  · exact h.2 hreached hne

/-- **A row passes its checks** if and only if its state meets the published inequalities. -/
theorem rowPasses_iff {s : PrefixDelta} {n : ℕ} (hordered : s.littleLower ≤ s.littleUpper) :
    RowPasses s n ↔ RowBounds s n := by
  refine ⟨fun h => ⟨fun hreached => (hurstTest_iff _ _).mp (h.hurst hreached),
    squarefreePasses_iff.mp h.b1, squarefreePasses_iff.mp h.b2,
    fun hreached => (littlePasses_iff hordered).mp (h.little hreached),
    fun hreached => (littlePasses_iff hordered).mp (h.stronger hreached)⟩,
    fun h => ⟨fun hreached => (hurstTest_iff _ _).mpr (h.hurst hreached),
    squarefreePasses_iff.mpr h.b1, squarefreePasses_iff.mpr h.b2,
    fun hreached => (littlePasses_iff hordered).mpr (h.little hreached),
    fun hreached => (littlePasses_iff hordered).mpr (h.stronger hreached)⟩⟩

end AttestedCompute.Hurst
