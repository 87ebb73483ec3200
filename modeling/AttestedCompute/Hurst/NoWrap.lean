import AttestedCompute.Hurst.Verify

/-!
# Where the verify mode does not wrap

A check of a row compares a product of the incoming state with a product of a floor root. The
products of the roots are small, because a row is at most `10^16`; those of the state are only as
small as the state. This module says for each check how small that must be, and that the check then
computes the published inequality: the cheap comparison implies it, and the comparison of squares
is the inequality itself.
-/

namespace AttestedCompute.Hurst

/-! ## Comparisons with a root -/

/-- A floor root gives the comparison of squares. -/
theorem sq_le_of_le_mul_root {a b r y : ℤ} (ha : 0 ≤ a) (h : a ≤ b * r) (hr : r * r ≤ y) :
    a * a ≤ b * b * y := by
  have hsquare : a * a ≤ b * r * (b * r) := mul_self_le_mul_self ha h
  calc a * a ≤ b * r * (b * r) := hsquare
    _ = b * b * (r * r) := by ring
    _ ≤ b * b * y := mul_le_mul_of_nonneg_left hr (mul_self_nonneg b)

/-- A rounded-up root gives it the other way around. -/
theorem mul_sq_le_of_mul_root_le {a r y c : ℤ} (ha : 0 ≤ a) (hr : 0 ≤ r) (h : a * r ≤ c)
    (hroot : y ≤ r * r) : y * (a * a) ≤ c * c := by
  have hsquare : a * r * (a * r) ≤ c * c := mul_self_le_mul_self (mul_nonneg ha hr) h
  calc y * (a * a) ≤ r * r * (a * a) := mul_le_mul_of_nonneg_right hroot (mul_self_nonneg a)
    _ = a * r * (a * r) := by ring
    _ ≤ c * c := hsquare

/-- Comparing with a root is comparing squares. -/
theorem le_mul_sqrt_iff {a b y : ℝ} (hb : 0 ≤ b) (hy : 0 ≤ y) :
    a ≤ b * Real.sqrt y ↔ a ≤ 0 ∨ a * a ≤ b * b * y := by
  have hroot : 0 ≤ b * Real.sqrt y := mul_nonneg hb (Real.sqrt_nonneg y)
  have hsquare : b * Real.sqrt y * (b * Real.sqrt y) = b * b * y := by
    rw [mul_mul_mul_comm, Real.mul_self_sqrt hy]
  rcases le_or_gt a 0 with ha | ha
  · exact iff_of_true (ha.trans hroot) (Or.inl ha)
  · rw [or_iff_right (not_le.mpr ha), ← hsquare]
    exact (mul_self_le_mul_self_iff ha.le hroot)

/-- The floor root of a row, as the checks use it. -/
structure IsRoot (root : UInt64) (value : ℕ) : Prop where
  eq_sqrt : root.toNat = Nat.sqrt value

theorem IsRoot.sq_le {root : UInt64} {value : ℕ} (h : IsRoot root value) :
    (root.toNat : ℤ) * root.toNat ≤ value := by
  rw [h.eq_sqrt]
  exact_mod_cast Nat.sqrt_le value

/-- A root of a row has at most nine digits. -/
theorem IsRoot.le {root : UInt64} {value : ℕ} (h : IsRoot root value)
    (hvalue : value ≤ kSourceLimit + 1) :
    (root.toNat : ℤ) ≤ 100000000 := by
  have hle : Nat.sqrt value ≤ 100000000 := by
    have hlt : Nat.sqrt value < 100000001 :=
      Nat.sqrt_lt.mpr (by unfold kSourceLimit at hvalue; omega)
    omega
  rw [h.eq_sqrt]
  exact_mod_cast hle

/-! ## Exact verdicts -/

/-- An exact computation of a verdict on `P`. -/
def Decides (check : Machine Verdict) (P : Prop) : Prop :=
  ∃ verdict, check = pure verdict ∧ (verdict.accepted = true ↔ P)

theorem decides_accept {P : Prop} (h : P) (counters : VerificationCounters) :
    Decides (pure ⟨true, counters⟩) P :=
  ⟨_, rfl, iff_of_true rfl h⟩

theorem decides_decide {P Q : Prop} [Decidable Q] (h : Q ↔ P) (counters : VerificationCounters) :
    Decides (pure ⟨decide Q, counters⟩) P :=
  ⟨_, rfl, decide_eq_true_iff.trans h⟩

/-- A second check after a first that accepts. -/
theorem Decides.and {check : Machine Verdict} {next : VerificationCounters → Machine Verdict}
    {P Q : Prop} (hcheck : Decides check P) (hnext : P → ∀ counters, Decides (next counters) Q) :
    Decides (do
      let verdict ← check
      if verdict.accepted then next verdict.counters else pure verdict) (P ∧ Q) := by
  obtain ⟨verdict, hverdict, hiff⟩ := hcheck
  rw [hverdict, pure_bind]
  by_cases haccepted : verdict.accepted = true
  · have hP := hiff.mp haccepted
    obtain ⟨second, hsecond, hiffSecond⟩ := hnext hP verdict.counters
    rw [if_pos haccepted]
    exact ⟨second, hsecond, hiffSecond.trans (and_iff_right hP).symm⟩
  · rw [if_neg haccepted]
    exact ⟨verdict, rfl, iff_of_false haccepted fun h => haccepted (hiff.mpr h.1)⟩

/-! ## The Mertens bound -/

/-- The comparison of squares in `verify_hurst_value`. -/
def HurstTest (mertens : ℤ) (n : ℕ) : Prop := 1000000 * mertens * mertens ≤ 571 * 571 * (n : ℤ)

/-- The size of a Mertens state that a row's check can square. -/
def HurstFits (mertens : ℤ) : Prop := 1000 * |mertens| < 2 ^ 64

theorem magnitudeI64_eq {value : ℤ} (hlo : -2 ^ 63 ≤ value) (hhi : value < 2 ^ 63) :
    magnitudeI64 value = pure |value| := by
  unfold magnitudeI64
  by_cases hneg : value < 0
  · rw [if_pos hneg, i64_eq (by omega) (by omega), pure_bind, i64_eq (by omega) (by omega),
      pure_bind, u64_eq (by omega) (by omega), pure_bind, u64_eq (by omega) (by omega),
      abs_of_neg hneg]
    congr 1
    omega
  · rw [if_neg hneg, u64_eq (by omega) (by omega), abs_of_nonneg (by omega)]

/-- **The Mertens check decides its bound**, if the state is small enough to be squared. -/
theorem verifyHurstValue_decides {n : ℕ} {mertens : ℤ} {root : UInt64} (hn : n ≤ kSourceLimit)
    (hroot : IsRoot root n) (hlo : -2 ^ 63 ≤ mertens) (hhi : mertens < 2 ^ 63)
    (hfits : HurstFits mertens) (counters : VerificationCounters) :
    Decides (verifyHurstValue n mertens root counters) (HurstTest mertens n) := by
  have hmagnitude : 0 ≤ |mertens| := abs_nonneg mertens
  have hsmall := hroot.le (hn.trans (Nat.le_succ _))
  have hsquare : 1000000 * |mertens| * |mertens| = 1000 * |mertens| * (1000 * |mertens|) := by ring
  have htest : HurstTest mertens n ↔ 1000000 * |mertens| * |mertens| ≤ 571 * 571 * n := by
    unfold HurstTest
    rw [mul_assoc 1000000, mul_assoc 1000000, abs_mul_abs_self]
  unfold HurstFits at hfits
  unfold kSourceLimit at hn
  unfold verifyHurstValue
  rw [magnitudeI64_eq hlo hhi, pure_bind, u128_eq (by omega) (by omega), pure_bind,
    u128_eq (by omega) (by omega), pure_bind]
  by_cases hcheap : 1000 * |mertens| ≤ 571 * (root.toNat : ℤ)
  · rw [if_pos hcheap]
    refine decides_accept (htest.mpr ?_) counters
    rw [hsquare]
    exact sq_le_of_le_mul_root (by omega) hcheap hroot.sq_le
  · have hproduct : 1000000 * |mertens| * |mertens| < 2 ^ 128 := by
      rw [hsquare]
      exact mul_self_lt_mul_self (by omega) hfits
    rw [if_neg hcheap, u128_eq (by omega) (by omega), pure_bind,
      u128_eq (by positivity) hproduct, pure_bind, u128_eq (by omega) (by omega), pure_bind,
      u128_eq (by omega) (by omega), pure_bind]
    exact decides_decide htest.symm _

/-! ## The squarefree bounds -/

/-- The comparison of squares in `verify_squarefree_side`. -/
def SideTest (deviation : ℤ) (y numerator : ℕ) : Prop :=
  deviation ≤ 0 ∨ deviation * 2000 * (deviation * 2000)
    ≤ numerator * kDensityDenominator * (numerator * kDensityDenominator) * y

/-- The deviation of a count from the lower mean, and of the upper mean from it. -/
def upperDeviation (squarefree : ℤ) (y : ℕ) : ℤ :=
  kDensityDenominator * squarefree - kDensityLower * y

def lowerDeviation (squarefree : ℤ) (y : ℕ) : ℤ :=
  kDensityUpper * y - kDensityDenominator * squarefree

/-- Both sides at one endpoint. -/
def EndpointTest (squarefree : ℤ) (y numerator : ℕ) : Prop :=
  SideTest (upperDeviation squarefree y) y numerator
    ∧ SideTest (lowerDeviation squarefree y) y numerator

/-- The size of a deviation that a check can multiply by its denominator. -/
def SideFits (deviation : ℤ) : Prop := deviation * 2000 < 2 ^ 128

theorem verifySquarefreeSide_decides {deviation : ℤ} {y numerator : ℕ} {root : UInt64}
    (hy : y ≤ kSourceLimit + 1) (hnumerator : numerator ≤ 151) (hroot : IsRoot root y)
    (hfits : SideFits deviation) (counters : VerificationCounters) :
    Decides (verifySquarefreeSide deviation y root numerator 2000 counters)
      (SideTest deviation y numerator) := by
  have hsmall := hroot.le hy
  unfold SideFits at hfits
  unfold verifySquarefreeSide
  by_cases hdeviation : deviation ≤ 0
  · rw [if_pos hdeviation]
    exact decides_accept (Or.inl hdeviation) counters
  · have hcoefficient : (numerator : ℤ) * kDensityDenominator ≤ 151 * kDensityDenominator :=
      mul_le_mul_of_nonneg_right (by exact_mod_cast hnumerator) (by decide)
    have hpos : 0 ≤ (numerator : ℤ) * kDensityDenominator :=
      mul_nonneg (Int.natCast_nonneg _) (by decide)
    have hbound : (numerator : ℤ) * kDensityDenominator * root.toNat
        ≤ 151 * kDensityDenominator * 100000000 :=
      mul_le_mul hcoefficient hsmall (Int.natCast_nonneg _) (by decide)
    have hleft : u128 (deviation * ((2000 : ℕ) : ℤ)) = pure (deviation * 2000) :=
      u128_eq (by omega) hfits
    rw [if_neg hdeviation, hleft, pure_bind,
      u128_eq hpos (hcoefficient.trans_lt (by decide)), pure_bind,
      u128_eq (mul_nonneg hpos (Int.natCast_nonneg _)) (hbound.trans_lt (by decide)), pure_bind]
    by_cases hcheap : deviation * 2000 ≤ numerator * kDensityDenominator * root.toNat
    · rw [if_pos hcheap]
      exact decides_accept (Or.inr (sq_le_of_le_mul_root (by omega) hcheap hroot.sq_le)) counters
    · rw [if_neg hcheap]
      exact decides_decide (or_iff_right hdeviation).symm _

/-- The lower deviation of a count is never too large. -/
theorem lowerDeviation_fits {squarefree : ℤ} {y : ℕ} (hy : y ≤ kSourceLimit + 1)
    (hsquarefree : 0 ≤ squarefree) : SideFits (lowerDeviation squarefree y) := by
  unfold kSourceLimit at hy
  unfold SideFits lowerDeviation kDensityUpper kDensityDenominator
  omega

/-- **A squarefree check decides its bound**, if the deviation is small enough. -/
theorem verifySquarefreeEndpoint_decides {squarefree : ℤ} {y numerator : ℕ} {root : UInt64}
    (hy : y ≤ kSourceLimit + 1) (hnumerator : numerator ≤ 151) (hroot : IsRoot root y)
    (hlo : 0 ≤ squarefree) (hhi : squarefree < 2 ^ 64)
    (hfits : SideFits (upperDeviation squarefree y)) (counters : VerificationCounters) :
    Decides (verifySquarefreeEndpoint y squarefree numerator 2000 root counters)
      (EndpointTest squarefree y numerator) := by
  have habove := verifySquarefreeSide_decides hy hnumerator hroot hfits counters
  have hbelow := verifySquarefreeSide_decides hy hnumerator hroot (lowerDeviation_fits hy hlo)
  have hy' : (y : ℤ) ≤ 10000000000000001 := by exact_mod_cast hy
  have hcount : 0 ≤ kDensityDenominator * squarefree
      ∧ kDensityDenominator * squarefree < 2 ^ 124 := by
    unfold kDensityDenominator
    omega
  have hlowerMean : 0 ≤ kDensityLower * y ∧ kDensityLower * y < 2 ^ 124 := by
    unfold kDensityLower
    omega
  have hupperMean : 0 ≤ kDensityUpper * y ∧ kDensityUpper * y < 2 ^ 124 := by
    unfold kDensityUpper
    omega
  unfold verifySquarefreeEndpoint
  rw [i128_eq (by omega) (by omega), pure_bind, i128_eq (by omega) (by omega), pure_bind,
    i128_eq (by omega) (by omega), pure_bind, i128_eq (by omega) (by omega), pure_bind,
    i128_eq (by omega) (by omega), pure_bind]
  exact habove.and fun _ => hbelow

/-! ## The little Mertens bounds -/

/-- A square root rounded up. -/
def ceilSqrt (value : ℕ) : ℕ :=
  if Nat.sqrt value * Nat.sqrt value = value then Nat.sqrt value else Nat.sqrt value + 1

theorem le_ceilSqrt_sq (value : ℕ) : value ≤ ceilSqrt value * ceilSqrt value := by
  unfold ceilSqrt
  by_cases hsquare : Nat.sqrt value * Nat.sqrt value = value
  · rw [if_pos hsquare, hsquare]
  · rw [if_neg hsquare]
    exact (Nat.lt_succ_sqrt value).le

theorem ceilSqrt_le {value : ℕ} (hvalue : value ≤ kSourceLimit) : ceilSqrt value ≤ 100000001 := by
  have hlt : Nat.sqrt value < 100000001 :=
    Nat.sqrt_lt.mpr (by unfold kSourceLimit at hvalue; omega)
  unfold ceilSqrt
  split <;> omega

theorem ceilOfFloor_eq {root : UInt64} {value : ℕ} (hvalue : value ≤ kSourceLimit + 1)
    (hroot : IsRoot root value) : ceilOfFloor root value = pure (ceilSqrt value : ℤ) := by
  have hsmall := hroot.le hvalue
  have hpos : 0 ≤ (root.toNat : ℤ) := Int.natCast_nonneg _
  have hsquare : (root.toNat : ℤ) * root.toNat < 2 ^ 64 :=
    (mul_self_le_mul_self hpos hsmall).trans_lt (by decide)
  unfold ceilOfFloor ceilSqrt
  rw [u64_eq (mul_self_nonneg _) hsquare, pure_bind, hroot.eq_sqrt]
  by_cases hexact : Nat.sqrt value * Nat.sqrt value = value
  · rw [if_pos (by exact_mod_cast hexact), if_pos hexact]
  · rw [if_neg (by exact_mod_cast hexact), if_neg hexact, ← hroot.eq_sqrt,
      u64_eq (by omega) (by omega)]
    push_cast
    rfl

theorem halfCeil_eq {halfRoot : UInt64} {right : ℕ} (hright : right ≤ kSourceLimit)
    (hroot : IsRoot halfRoot ((right + 1) / 2)) :
    halfCeil right halfRoot = pure (ceilSqrt ((right + 1) / 2) : ℤ) := by
  have hhalf : ((right : ℤ) + 1) / 2 = (((right + 1) / 2 : ℕ) : ℤ) := by omega
  have hle : (right + 1) / 2 ≤ kSourceLimit + 1 := by omega
  unfold halfCeil
  unfold kSourceLimit at hright
  rw [u64_eq (by omega) (by omega), pure_bind, hhalf]
  exact ceilOfFloor_eq hle hroot

theorem absoluteI128_eq {value : ℤ} (hlo : -2 ^ 127 ≤ value) (hhi : value < 2 ^ 127) :
    absoluteI128 value = pure |value| := by
  unfold absoluteI128
  by_cases hpos : value ≥ 0
  · rw [if_pos hpos, u128_eq hpos (by omega), abs_of_nonneg hpos]
  · rw [if_neg hpos, i128_eq (by omega) (by omega), pure_bind, i128_eq (by omega) (by omega),
      pure_bind, u128_eq (by omega) (by omega), pure_bind, u128_eq (by omega) (by omega),
      abs_of_neg (not_le.mp hpos)]
    congr 1
    omega

/-- The comparison of squares in `endpoint_safe`. -/
def LittleTest (stronger : Bool) (right : ℕ) (value : ℤ) : Prop :=
  if stronger then 4 * (right : ℤ) * |value| * |value| ≤ kLittleScale * kLittleScale
  else (right : ℤ) * |value| * |value| ≤ 2 * kLittleScale * kLittleScale

/-- The root that a cheap comparison multiplies by. -/
def littleMultiplier (stronger : Bool) (right : ℕ) : ℤ :=
  if stronger then 2 * (ceilSqrt right : ℤ) else (ceilSqrt ((right + 1) / 2) : ℤ)

/-- The upper endpoint passes the cheap comparison. -/
def UpperCheap (stronger : Bool) (right : ℕ) (upper : ℤ) : Prop :=
  0 < upper → upper * littleMultiplier stronger right ≤ kLittleScale

/-- The sizes of the endpoints that a check can multiply, the lower one only where the upper one
passed. -/
structure LittleFits (stronger : Bool) (right : ℕ) (lower upper : ℤ) : Prop where
  upper_lt : 0 < upper → upper * littleMultiplier stronger right < 2 ^ 128
  lower_lt : lower < 0 → UpperCheap stronger right upper →
    -lower * littleMultiplier stronger right < 2 ^ 128

theorem littleMultiplier_nonneg (stronger : Bool) (right : ℕ) :
    0 ≤ littleMultiplier stronger right := by
  unfold littleMultiplier
  split
  · positivity
  · positivity

/-- **The cheap comparison implies the bound.** -/
theorem littleTest_of_cheap {stronger : Bool} {right : ℕ} {value : ℤ}
    (h : |value| * littleMultiplier stronger right ≤ kLittleScale) :
    LittleTest stronger right value := by
  have hnonneg := littleMultiplier_nonneg stronger right
  unfold LittleTest
  rcases stronger with _ | _
  · -- half the right endpoint, rounded up, is at least half of it
    have hroot : (((right + 1) / 2 : ℕ) : ℤ)
        ≤ (ceilSqrt ((right + 1) / 2) : ℤ) * ceilSqrt ((right + 1) / 2) := by
      exact_mod_cast le_ceilSqrt_sq ((right + 1) / 2)
    have hhalf : (((right + 1) / 2 : ℕ) : ℤ) * (|value| * |value|) ≤ kLittleScale * kLittleScale :=
      mul_sq_le_of_mul_root_le (abs_nonneg value) hnonneg h hroot
    have htwice : (right : ℤ) ≤ 2 * (((right + 1) / 2 : ℕ) : ℤ) := by omega
    rw [if_neg Bool.false_ne_true]
    calc (right : ℤ) * |value| * |value| = right * (|value| * |value|) := mul_assoc _ _ _
      _ ≤ 2 * (((right + 1) / 2 : ℕ) : ℤ) * (|value| * |value|) :=
        mul_le_mul_of_nonneg_right htwice (mul_self_nonneg _)
      _ = 2 * ((((right + 1) / 2 : ℕ) : ℤ) * (|value| * |value|)) := mul_assoc _ _ _
      _ ≤ 2 * (kLittleScale * kLittleScale) := mul_le_mul_of_nonneg_left hhalf (by decide)
      _ = 2 * kLittleScale * kLittleScale := (mul_assoc _ _ _).symm
  · have hroot : 4 * (right : ℤ) ≤ 2 * (ceilSqrt right : ℤ) * (2 * (ceilSqrt right : ℤ)) := by
      have hle : (right : ℤ) ≤ ceilSqrt right * ceilSqrt right := by
        exact_mod_cast le_ceilSqrt_sq right
      calc 4 * (right : ℤ) ≤ 4 * ((ceilSqrt right : ℤ) * ceilSqrt right) :=
            mul_le_mul_of_nonneg_left hle (by decide)
        _ = 2 * (ceilSqrt right : ℤ) * (2 * (ceilSqrt right : ℤ)) := by ring
    rw [if_pos rfl, mul_assoc]
    exact mul_sq_le_of_mul_root_le (abs_nonneg value) hnonneg h hroot

theorem endpointSafe_eq {value : ℤ} (hlo : -2 ^ 127 ≤ value) (hhi : value < 2 ^ 127)
    (stronger : Bool) (right : ℕ) :
    ∃ safe, endpointSafe stronger right value = pure safe
      ∧ (safe = true ↔ LittleTest stronger right value) := by
  unfold endpointSafe LittleTest
  rw [absoluteI128_eq hlo hhi, pure_bind]
  refine ⟨_, rfl, ?_⟩
  rcases stronger with _ | _
  · exact decide_eq_true_iff
  · exact decide_eq_true_iff

/-- The roots at a right endpoint and at half of it. -/
structure LittleRoots (right : ℕ) (root halfRoot : UInt64) : Prop where
  right_le : right ≤ kSourceLimit
  root : IsRoot root right
  half : IsRoot halfRoot ((right + 1) / 2)

theorem cheapUpper_eq {right : ℕ} {root halfRoot : UInt64} {stronger : Bool} {lower upper : ℤ}
    (hroots : LittleRoots right root halfRoot) (hfits : LittleFits stronger right lower upper) :
    ∃ above, cheapUpper right upper (ceilSqrt right) stronger halfRoot = pure above
      ∧ (above = true ↔ UpperCheap stronger right upper) := by
  have hsmall : (ceilSqrt right : ℤ) ≤ 100000001 := by exact_mod_cast ceilSqrt_le hroots.right_le
  unfold cheapUpper
  by_cases hupper : upper > 0
  · have hproduct : u128 (upper * littleMultiplier stronger right)
        = pure (upper * littleMultiplier stronger right) :=
      u128_eq (mul_nonneg hupper.le (littleMultiplier_nonneg _ _)) (hfits.upper_lt hupper)
    refine ⟨decide (upper * littleMultiplier stronger right ≤ kLittleScale), ?_,
      decide_eq_true_iff.trans ⟨fun h _ => h, fun h => h hupper⟩⟩
    rcases stronger with _ | _
    · rw [if_pos hupper, if_neg Bool.false_ne_true, u128_eq (by omega) (by omega), pure_bind,
        if_neg Bool.false_ne_true, halfCeil_eq hroots.right_le hroots.half, pure_bind]
      change u128 (upper * littleMultiplier false right) >>= _ = _
      rw [hproduct, pure_bind]
    · rw [if_pos hupper, if_pos rfl, u128_eq (by omega) (by omega), pure_bind, if_pos rfl,
        pure_bind, mul_comm _ 2]
      change u128 (upper * littleMultiplier true right) >>= _ = _
      rw [hproduct, pure_bind]
  · exact ⟨true, if_neg hupper, iff_of_true rfl fun h => absurd h hupper⟩

theorem cheapLower_eq {right : ℕ} {root halfRoot : UInt64} {stronger above : Bool}
    {lower upper : ℤ} (hroots : LittleRoots right root halfRoot) (hge : -2 ^ 127 ≤ lower)
    (habove : above = true ↔ UpperCheap stronger right upper)
    (hfits : LittleFits stronger right lower upper) :
    ∃ cheap, cheapLower right lower (ceilSqrt right) stronger halfRoot above = pure cheap
      ∧ (cheap = true ↔ UpperCheap stronger right upper
        ∧ (lower < 0 → -lower * littleMultiplier stronger right ≤ kLittleScale)) := by
  have hsmall : (ceilSqrt right : ℤ) ≤ 100000001 := by exact_mod_cast ceilSqrt_le hroots.right_le
  unfold cheapLower
  by_cases hcheck : above = true ∧ lower < 0
  · obtain ⟨hpassed, hlower⟩ := hcheck
    have hproduct : u128 (-lower * littleMultiplier stronger right)
        = pure (-lower * littleMultiplier stronger right) :=
      u128_eq (mul_nonneg (by omega) (littleMultiplier_nonneg _ _))
        (hfits.lower_lt hlower (habove.mp hpassed))
    refine ⟨decide (-lower * littleMultiplier stronger right ≤ kLittleScale), ?_,
      decide_eq_true_iff.trans ?_⟩
    · rw [if_pos ⟨hpassed, hlower⟩, absoluteI128_eq hge (by omega), pure_bind, abs_of_neg hlower]
      rcases stronger with _ | _
      · rw [if_neg Bool.false_ne_true, halfCeil_eq hroots.right_le hroots.half, pure_bind]
        change u128 (-lower * littleMultiplier false right) >>= _ = _
        rw [hproduct, pure_bind]
      · rw [if_pos rfl, u128_eq (by omega) (by omega), pure_bind]
        change u128 (-lower * littleMultiplier true right) >>= _ = _
        rw [hproduct, pure_bind]
    · rw [and_iff_right (habove.mp hpassed), forall_prop_of_true hlower]
  · refine ⟨above, if_neg hcheck, habove.trans (and_iff_left_of_imp fun hpassed hlower => ?_).symm⟩
    exact absurd ⟨habove.mpr hpassed, hlower⟩ hcheck

/-- Two cheap comparisons bound the whole interval. -/
theorem abs_mul_le_of_cheap {lower upper value m c : ℤ} (hm : 0 ≤ m) (hc : 0 ≤ c)
    (hupper : 0 < upper → upper * m ≤ c) (hlower : lower < 0 → -lower * m ≤ c)
    (hge : lower ≤ value) (hle : value ≤ upper) : |value| * m ≤ c := by
  rcases lt_trichotomy value 0 with hneg | hzero | hpos
  · rw [abs_of_neg hneg]
    exact (mul_le_mul_of_nonneg_right (by omega) hm).trans (hlower (by omega))
  · rw [hzero, abs_zero, zero_mul]
    exact hc
  · rw [abs_of_pos hpos]
    exact (mul_le_mul_of_nonneg_right hle hm).trans (hupper (by omega))

/-- **A little Mertens check decides its bound** for both ends of an interval, if the ends are
small enough. -/
theorem verifyLittleValue_decides {right : ℕ} {root halfRoot : UInt64} {stronger : Bool}
    {lower upper : ℤ} (hroots : LittleRoots right root halfRoot) (hge : -2 ^ 127 ≤ lower)
    (hlt : upper < 2 ^ 127) (hordered : lower ≤ upper)
    (hfits : LittleFits stronger right lower upper) (counters : VerificationCounters) :
    Decides (verifyLittleValue right lower upper stronger root halfRoot counters)
      (LittleTest stronger right lower ∧ LittleTest stronger right upper) := by
  have hceil := ceilOfFloor_eq (hroots.right_le.trans (Nat.le_succ _)) hroots.root
  obtain ⟨above, habove, hiffAbove⟩ := cheapUpper_eq hroots hfits
  obtain ⟨cheap, hcheap, hiffCheap⟩ := cheapLower_eq hroots hge hiffAbove hfits
  unfold verifyLittleValue
  rw [hceil, pure_bind, habove, pure_bind, hcheap, pure_bind]
  by_cases hpassed : cheap = true
  · obtain ⟨hupper, hlower⟩ := hiffCheap.mp hpassed
    have hbound : ∀ value, lower ≤ value → value ≤ upper → LittleTest stronger right value :=
      fun value hlo hhi => littleTest_of_cheap
        (abs_mul_le_of_cheap (littleMultiplier_nonneg _ _) (by decide) hupper hlower hlo hhi)
    rw [if_pos hpassed]
    exact decides_accept ⟨hbound lower le_rfl hordered, hbound upper hordered le_rfl⟩ counters
  · obtain ⟨lowerSafe, hlowerSafe, hiffLower⟩ :=
      endpointSafe_eq hge (hordered.trans_lt hlt) stronger right
    obtain ⟨upperSafe, hupperSafe, hiffUpper⟩ :=
      endpointSafe_eq (hge.trans hordered) hlt stronger right
    rw [if_neg hpassed, hlowerSafe, pure_bind, hupperSafe]
    by_cases hsafe : lowerSafe = true
    · rw [if_pos hsafe, pure_bind]
      exact ⟨_, rfl, hiffUpper.trans (and_iff_right (hiffLower.mp hsafe)).symm⟩
    · rw [if_neg hsafe, pure_bind]
      exact ⟨_, rfl, iff_of_false Bool.false_ne_true fun h => hsafe (hiffLower.mpr h.1)⟩

end AttestedCompute.Hurst
