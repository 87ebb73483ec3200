import AttestedCompute.Lib.MachineInt

/-!
# The integer square roots of the residual shard

Four algorithms: correcting an estimate from floating point, moving a root along with its
argument, bisection and Newton's iteration. The first two are one pair of loops with different
tests, up while the next root still fits and then down while the root does not. Each computes
`Nat.sqrt` without a wrapped sum, a wrapped product or a division by zero, Newton's iteration as
long as the number of bits of its argument fits in an `unsigned int`.
-/

namespace AttestedCompute.Hurst

/-- `std::numeric_limits<std::uint64_t>::max()` -/
def maxU64 : UInt64 := 0xffffffffffffffff

/-- A `std::uint64_t` sum. -/
def add64 (a b : UInt64) : Machine UInt64 := ⟨a + b, decide (a.toNat + b.toNat < 2 ^ 64)⟩

/-- A `std::uint64_t` difference. -/
def sub64 (a b : UInt64) : Machine UInt64 := ⟨a - b, decide (b.toNat ≤ a.toNat)⟩

/-- An `unsigned __int128` result. -/
abbrev u128 (x : ℤ) : Machine ℤ := Machine.unsigned 128 x

/-! ## Two correcting loops -/

/-- `while (root != max && test(root + 1)) ++root;` -/
def raiseWhile (test : UInt64 → Machine Bool) (root : UInt64) : Machine UInt64 :=
  if h : root ≠ maxU64 then do
    let next ← add64 root 1
    if ← test next then raiseWhile test (root + 1) else pure root
  else pure root
termination_by 2 ^ 64 - root.toNat
decreasing_by
  have hne : root.toNat ≠ maxU64.toNat := fun heq => h (UInt64.toNat_inj.mp heq)
  have hmax : maxU64.toNat = 2 ^ 64 - 1 := rfl
  have hone : (1 : UInt64).toNat = 1 := rfl
  have hlt := root.toNat_lt
  rw [UInt64.toNat_add, hone]
  omega

/-- `while (root != 0 && test(root)) --root;` -/
def lowerWhile (test : UInt64 → Machine Bool) (root : UInt64) : Machine UInt64 :=
  if h : root ≠ 0 then do
    if ← test root then
      let _ ← sub64 root 1
      lowerWhile test (root - 1)
    else pure root
  else pure root
termination_by root.toNat
decreasing_by
  have hne : root.toNat ≠ 0 := fun heq => h (UInt64.toNat_inj.mp heq)
  have hone : (1 : UInt64).toNat = 1 := rfl
  have hlt := root.toNat_lt
  rw [UInt64.toNat_sub, hone]
  omega

/-- `integer_sqrt_u64`, from the estimate that `std::sqrt` gives. -/
def integerSqrtU64 (value estimate : UInt64) : Machine UInt64 := do
  let raised ← raiseWhile (fun next => do
    let bound ← Machine.quotient value next
    pure (decide (next ≤ bound))) estimate
  lowerWhile (fun root => do
    let bound ← Machine.quotient value root
    pure (decide (root > bound))) raised

/-- `advance_floor_root` -/
def advanceFloorRoot (value root : UInt64) : Machine UInt64 := do
  let raised ← raiseWhile (fun next => do
    let square ← u128 ((next.toNat : ℤ) * next.toNat)
    pure (decide ¬ square > value.toNat)) root
  lowerWhile (fun root => do
    let square ← u128 ((root.toNat : ℤ) * root.toNat)
    pure (decide (square > value.toNat))) raised

/-! ## Bisection and Newton's iteration -/

/-- The `low` and `high` of the bisection. -/
structure Bracket where
  low : ℕ
  high : ℕ
  ordered : low < high
  bounded : high ≤ 2 ^ 64

def Bracket.middle (b : Bracket) : ℕ := b.low + (b.high - b.low) / 2

/-- The loop of `integer_sqrt_u128`. The bracket is within 64 bits, so its middle is what the
machine computes. -/
def bisect (value : BitVec 128) (b : Bracket) : Machine ℕ := do
  let _ ← u128 (b.low + 1)
  if _ : b.low + 1 < b.high then
    let width ← u128 (b.high - b.low)
    let middle ← u128 (b.low + width / 2)
    let bound ← Machine.quotient (value.toNat : ℤ) middle
    if middle ≤ bound then
      bisect value { b with low := b.middle, ordered := by unfold Bracket.middle; omega }
    else
      bisect value { b with
        high := b.middle
        ordered := by unfold Bracket.middle; omega
        bounded := by have := b.bounded; unfold Bracket.middle; omega }
  else pure b.low
termination_by b.high - b.low
decreasing_by
  all_goals
    simp only [Bracket.middle]
    omega

/-- `integer_sqrt_u128` -/
def integerSqrtU128 (value : BitVec 128) : Machine ℕ :=
  if value = 0 then pure 0
  else bisect value { low := 1, high := 2 ^ 64, ordered := by decide, bounded := by decide }

/-- The loop of `integer_sqrt`. -/
def newton (value current : ℕ) : Machine ℕ := do
  let _ ← Machine.quotient value current
  if _ : (current + value / current) >>> 1 ≥ current then pure current
  else newton value ((current + value / current) >>> 1)
termination_by current
decreasing_by exact not_le.mp ‹_›

/-- `integer_sqrt`, which exits on a negative argument. `msb` is the position of the highest set
bit; the number of bits and the shift are `unsigned int`. -/
def integerSqrt (value : ℤ) : Option (Machine ℕ) :=
  if value < 0 then none
  else if value < 2 then some (pure value.toNat)
  else some (do
    let bits ← Machine.unsigned 32 (Nat.log2 value.toNat + 1)
    let rounded ← Machine.unsigned 32 (bits + 1)
    newton value.toNat (1 <<< (rounded / 2).toNat))

/-! ## The correcting loops -/

theorem toNat_pos_of_ne_zero {x : UInt64} (h : x ≠ 0) : 0 < x.toNat :=
  Nat.pos_of_ne_zero fun heq => h (UInt64.toNat_inj.mp heq)

theorem toNat_maxU64 : maxU64.toNat = 2 ^ 64 - 1 := rfl

/-- Below the largest word a step up is exact. -/
theorem add64_one {root : UInt64} (h : root ≠ maxU64) :
    add64 root 1 = pure (root + 1) ∧ (root + 1).toNat = root.toNat + 1 := by
  have hne : root.toNat ≠ maxU64.toNat := fun heq => h (UInt64.toNat_inj.mp heq)
  have hlt := root.toNat_lt
  have hone : (1 : UInt64).toNat = 1 := rfl
  rw [toNat_maxU64] at hne
  refine ⟨Machine.ext rfl (decide_eq_true (by rw [hone]; omega)), ?_⟩
  rw [UInt64.toNat_add, hone]
  omega

/-- Above zero a step down is exact. -/
theorem sub64_one {root : UInt64} (h : root ≠ 0) :
    sub64 root 1 = pure (root - 1) ∧ (root - 1).toNat = root.toNat - 1 := by
  have hpos := toNat_pos_of_ne_zero h
  have hlt := root.toNat_lt
  have hone : (1 : UInt64).toNat = 1 := rfl
  refine ⟨Machine.ext rfl (decide_eq_true (by rw [hone]; omega)), ?_⟩
  rw [UInt64.toNat_sub, hone]
  omega

/-- **Going up** ends past the root from any start. -/
theorem raiseWhile_spec {test : UInt64 → Machine Bool} {value : ℕ} (hvalue : value < 2 ^ 64)
    (htest : ∀ x, x ≠ 0 → test x = pure (decide (x.toNat * x.toNat ≤ value))) (root : UInt64) :
    ∃ r, raiseWhile test root = pure r ∧ value < (r.toNat + 1) * (r.toNat + 1) := by
  induction hn : 2 ^ 64 - root.toNat using Nat.strong_induction_on generalizing root with
  | _ n ih =>
      unfold raiseWhile
      by_cases hmax : root = maxU64
      · refine ⟨root, dif_neg (not_not.mpr hmax), ?_⟩
        rw [hmax, toNat_maxU64]
        exact hvalue.trans (by decide)
      · obtain ⟨hadd, hnext⟩ := add64_one hmax
        have hne : root + 1 ≠ 0 := by
          intro hzero
          rw [hzero] at hnext
          cases hnext
        have hlt := root.toNat_lt
        rw [dif_pos hmax, hadd, pure_bind, htest _ hne, pure_bind, hnext]
        by_cases hfits : (root.toNat + 1) * (root.toNat + 1) ≤ value
        · rw [decide_eq_true hfits, if_pos rfl]
          exact ih _ (by omega) (root + 1) rfl
        · rw [decide_eq_false hfits, if_neg Bool.false_ne_true]
          exact ⟨root, rfl, not_le.mp hfits⟩

/-- **Going down** from past the root ends at it. -/
theorem lowerWhile_spec {test : UInt64 → Machine Bool} {value : ℕ}
    (htest : ∀ x, x ≠ 0 → test x = pure (decide (value < x.toNat * x.toNat))) {root : UInt64}
    (hroot : value < (root.toNat + 1) * (root.toNat + 1)) :
    ∃ r, lowerWhile test root = pure r ∧ r.toNat = Nat.sqrt value := by
  induction hn : root.toNat using Nat.strong_induction_on generalizing root with
  | _ n ih =>
      unfold lowerWhile
      by_cases hzero : root = 0
      · refine ⟨root, dif_neg (not_not.mpr hzero), Nat.eq_sqrt.mpr ⟨?_, hroot⟩⟩
        rw [hzero, UInt64.toNat_zero]
        exact Nat.zero_le _
      · obtain ⟨hsub, hprev⟩ := sub64_one hzero
        have hpos := toNat_pos_of_ne_zero hzero
        rw [dif_pos hzero, htest _ hzero, pure_bind]
        by_cases hover : value < root.toNat * root.toNat
        · rw [decide_eq_true hover, if_pos rfl, hsub, pure_bind]
          refine ih _ (by omega) ?_ rfl
          rwa [hprev, Nat.sub_add_cancel hpos]
        · rw [decide_eq_false hover, if_neg Bool.false_ne_true]
          exact ⟨root, rfl, Nat.eq_sqrt.mpr ⟨not_lt.mp hover, hroot⟩⟩

/-- The two tests by division. -/
theorem quotient_test (value : UInt64) {x : UInt64} (h : x ≠ 0) :
    Machine.quotient value x = pure (value / x)
      ∧ (x ≤ value / x ↔ x.toNat * x.toNat ≤ value.toNat) := by
  refine ⟨Machine.quotient_eq h, ?_⟩
  rw [UInt64.le_iff_toNat_le, UInt64.toNat_div, Nat.le_div_iff_mul_le (toNat_pos_of_ne_zero h)]

/-- The product of two words fits. -/
theorem u128_mul (x y : UInt64) : u128 ((x.toNat : ℤ) * y.toNat) = pure ((x.toNat : ℤ) * y.toNat) := by
  have hx := x.toNat_lt
  have hy := y.toNat_lt
  refine Machine.unsigned_eq (by positivity) ?_
  have hprod : x.toNat * y.toNat < 2 ^ 64 * 2 ^ 64 := Nat.mul_lt_mul'' hx hy
  exact_mod_cast hprod

theorem integerSqrtU64_eq (value estimate : UInt64) :
    ∃ r, integerSqrtU64 value estimate = pure r ∧ r.toNat = Nat.sqrt value.toNat := by
  have hup : ∀ next : UInt64, next ≠ 0 → (do
      let bound ← Machine.quotient value next
      pure (decide (next ≤ bound)) : Machine Bool)
        = pure (decide (next.toNat * next.toNat ≤ value.toNat)) := by
    intro next hne
    obtain ⟨hquotient, hiff⟩ := quotient_test value hne
    rw [hquotient, pure_bind, decide_eq_decide.mpr hiff]
  have hdown : ∀ root : UInt64, root ≠ 0 → (do
      let bound ← Machine.quotient value root
      pure (decide (root > bound)) : Machine Bool)
        = pure (decide (value.toNat < root.toNat * root.toNat)) := by
    intro root hne
    obtain ⟨hquotient, hiff⟩ := quotient_test value hne
    have hflip : root > value / root ↔ value.toNat < root.toNat * root.toNat := by
      rw [gt_iff_lt, ← UInt64.not_le, hiff, not_le]
    rw [hquotient, pure_bind, decide_eq_decide.mpr hflip]
  obtain ⟨raised, hraise, hpast⟩ := raiseWhile_spec value.toNat_lt hup estimate
  unfold integerSqrtU64
  rw [hraise, pure_bind]
  exact lowerWhile_spec hdown hpast

theorem advanceFloorRoot_eq (value root : UInt64) :
    ∃ r, advanceFloorRoot value root = pure r ∧ r.toNat = Nat.sqrt value.toNat := by
  have hup : ∀ next : UInt64, next ≠ 0 → (do
      let square ← u128 ((next.toNat : ℤ) * next.toNat)
      pure (decide ¬ square > value.toNat) : Machine Bool)
        = pure (decide (next.toNat * next.toNat ≤ value.toNat)) := by
    intro next _
    have hiff : ¬ (next.toNat : ℤ) * next.toNat > value.toNat
        ↔ next.toNat * next.toNat ≤ value.toNat := by
      rw [gt_iff_lt, not_lt]
      norm_cast
    rw [u128_mul, pure_bind, decide_eq_decide.mpr hiff]
  have hdown : ∀ root : UInt64, root ≠ 0 → (do
      let square ← u128 ((root.toNat : ℤ) * root.toNat)
      pure (decide (square > value.toNat)) : Machine Bool)
        = pure (decide (value.toNat < root.toNat * root.toNat)) := by
    intro root _
    have hiff : (root.toNat : ℤ) * root.toNat > value.toNat
        ↔ value.toNat < root.toNat * root.toNat := by
      rw [gt_iff_lt]
      norm_cast
    rw [u128_mul, pure_bind, decide_eq_decide.mpr hiff]
  obtain ⟨raised, hraise, hpast⟩ := raiseWhile_spec value.toNat_lt hup root
  unfold advanceFloorRoot
  rw [hraise, pure_bind]
  exact lowerWhile_spec hdown hpast

/-! ## Bisection -/

/-- **A bracket around the root closes on it.** -/
theorem bisect_eq (value : BitVec 128) {b : Bracket} (hpos : 0 < b.low)
    (hlow : b.low * b.low ≤ value.toNat) (hhigh : value.toNat < b.high * b.high) :
    bisect value b = pure (Nat.sqrt value.toNat) := by
  induction hn : b.high - b.low using Nat.strong_induction_on generalizing b with
  | _ n ih =>
      have hordered := b.ordered
      have hbounded := b.bounded
      have hsucc : u128 (b.low + 1) = pure ((b.low : ℤ) + 1) :=
        Machine.unsigned_eq (by omega) (by omega)
      have hwidth : u128 (b.high - b.low) = pure ((b.high : ℤ) - b.low) :=
        Machine.unsigned_eq (by omega) (by omega)
      have hcast : (b.low : ℤ) + ((b.high : ℤ) - b.low) / 2 = (b.middle : ℤ) := by
        unfold Bracket.middle
        omega
      have hmiddlePos : 0 < b.middle := by
        unfold Bracket.middle
        omega
      have hmiddle : u128 ((b.low : ℤ) + ((b.high : ℤ) - b.low) / 2) = pure (b.middle : ℤ) := by
        rw [hcast]
        refine Machine.unsigned_eq (by omega) ?_
        unfold Bracket.middle
        omega
      unfold bisect
      rw [hsucc, pure_bind]
      by_cases hopen : b.low + 1 < b.high
      · have hne : (b.middle : ℤ) ≠ 0 := by omega
        have hiff : (b.middle : ℤ) ≤ (value.toNat : ℤ) / b.middle
            ↔ b.middle * b.middle ≤ value.toNat := by
          rw [← Nat.le_div_iff_mul_le hmiddlePos]
          norm_cast
        rw [dif_pos hopen, hwidth, pure_bind, hmiddle, pure_bind, Machine.quotient_eq hne, pure_bind]
        by_cases hfits : b.middle * b.middle ≤ value.toNat
        · rw [if_pos (hiff.mpr hfits)]
          refine ih _ ?_ hmiddlePos hfits hhigh rfl
          simp only [Bracket.middle]
          omega
        · rw [if_neg (mt hiff.mp hfits)]
          refine ih _ ?_ hpos hlow (not_le.mp hfits) rfl
          simp only [Bracket.middle]
          omega
      · have hclosed : b.high = b.low + 1 := by omega
        rw [dif_neg hopen, Nat.eq_sqrt.mpr ⟨hlow, hclosed ▸ hhigh⟩]

theorem integerSqrtU128_eq (value : BitVec 128) :
    integerSqrtU128 value = pure (Nat.sqrt value.toNat) := by
  unfold integerSqrtU128
  by_cases hzero : value = 0
  · rw [if_pos hzero, hzero]
    rfl
  · have hpos : 0 < value.toNat := by
      refine Nat.pos_of_ne_zero fun h => hzero ?_
      exact BitVec.eq_of_toNat_eq h
    rw [if_neg hzero]
    exact bisect_eq value Nat.one_pos hpos value.isLt

/-! ## Newton's iteration -/

/-- A step from anywhere lands above the root: the mean of `c` and `v / c` is at least `√v`. -/
theorem newton_above (v : ℕ) {c : ℕ} (hc : 0 < c) :
    v < ((c + v / c) / 2 + 1) * ((c + v / c) / 2 + 1) := by
  have hquotient : v < c * (v / c + 1) := Nat.lt_mul_div_succ v hc
  have hmean : c + (v / c + 1) ≤ 2 * ((c + v / c) / 2 + 1) := by omega
  generalize v / c = q at hquotient hmean ⊢
  generalize (c + q) / 2 + 1 = next at hmean ⊢
  have hsquare : 4 * (c * (q + 1)) ≤ (c + (q + 1)) * (c + (q + 1)) := by
    zify
    nlinarith [sq_nonneg ((c : ℤ) - (q + 1))]
  have hmul := Nat.mul_le_mul hmean hmean
  have hexpand : 2 * next * (2 * next) = 4 * (next * next) := by ring
  omega

/-- A step that does not go down has reached a root from above. -/
theorem newton_stop {v c : ℕ} (hc : 0 < c) (h : (c + v / c) / 2 ≥ c) : c * c ≤ v :=
  (Nat.le_div_iff_mul_le hc).mp (by omega)

theorem half_eq (n : ℕ) : n >>> 1 = n / 2 := Nat.shiftRight_eq_div_pow n 1

/-- **From above the root the iteration ends at it.** -/
theorem newton_eq {value : ℕ} (hvalue : 0 < value) {current : ℕ} (hpos : 0 < current)
    (habove : value < (current + 1) * (current + 1)) :
    newton value current = pure (Nat.sqrt value) := by
  induction current using Nat.strong_induction_on with
  | _ current ih =>
      unfold newton
      rw [Machine.quotient_eq hpos.ne', pure_bind]
      by_cases hstop : (current + value / current) >>> 1 ≥ current
      · rw [dif_pos hstop]
        rw [half_eq] at hstop
        rw [Nat.eq_sqrt.mpr ⟨newton_stop hpos hstop, habove⟩]
      · rw [dif_neg hstop]
        rw [half_eq] at hstop ⊢
        have hnext : 0 < (current + value / current) / 2 := by
          -- only zero steps down to zero
          by_cases hone : current = 1
          · rw [hone, Nat.div_one]
            omega
          · generalize value / current = bound
            omega
        exact ih _ (not_le.mp hstop) hnext (newton_above value hpos)

/-- From below the root the iteration does not move. -/
theorem newton_below {value current : ℕ} (hpos : 0 < current) (h : current * current ≤ value) :
    newton value current = pure current := by
  have hstay : (current + value / current) >>> 1 ≥ current := by
    have hquotient := (Nat.le_div_iff_mul_le hpos).mpr h
    rw [half_eq]
    omega
  unfold newton
  rw [Machine.quotient_eq hpos.ne', pure_bind, dif_pos hstay]

/-! ## The start of the iteration -/

/-- Enough bits are shifted in when the number of bits is not truncated. -/
theorem newton_start_above {v : ℕ} (hv : v ≠ 0) :
    v < (2 ^ ((Nat.log2 v + 1 + 1) / 2) + 1) * (2 ^ ((Nat.log2 v + 1 + 1) / 2) + 1) := by
  have hlog : v < 2 ^ (Nat.log2 v + 1) := (Nat.log2_lt hv).mp (Nat.lt_succ_self _)
  have hpow : 2 ^ (Nat.log2 v + 1) ≤ 2 ^ ((Nat.log2 v + 1 + 1) / 2) * 2 ^ ((Nat.log2 v + 1 + 1) / 2) := by
    rw [← Nat.pow_add]
    exact Nat.pow_le_pow_right (by decide) (by omega)
  calc v < 2 ^ ((Nat.log2 v + 1 + 1) / 2) * 2 ^ ((Nat.log2 v + 1 + 1) / 2) := hlog.trans_le hpow
    _ ≤ _ := Nat.mul_le_mul (Nat.le_succ _) (Nat.le_succ _)

/-- The number of bits and the shift of `integer_sqrt`, as the machine computes them. -/
theorem integerSqrt_eq {v : ℕ} (hv : 2 ≤ v) :
    integerSqrt v = some (do
      let bits ← Machine.unsigned 32 (Nat.log2 v + 1)
      let rounded ← Machine.unsigned 32 (bits + 1)
      newton v (1 <<< (rounded / 2).toNat)) := by
  unfold integerSqrt
  rw [if_neg (by omega), if_neg (by omega), Int.toNat_natCast]

/-- The number of bits of a positive number. -/
theorem size_le_iff_log2 {v : ℕ} (hv : v ≠ 0) (n : ℕ) : v.size ≤ n ↔ Nat.log2 v < n := by
  rw [Nat.size_le, Nat.log2_lt hv]

theorem integerSqrt_exact {v : ℕ} (h : v.size ≤ 2 ^ 32 - 2) :
    integerSqrt v = some (pure (Nat.sqrt v)) := by
  by_cases hsmall : v < 2
  · unfold integerSqrt
    rw [if_neg (by omega), if_pos (by omega), Int.toNat_natCast]
    have hroot : Nat.sqrt v = v := by
      have hcases : v = 0 ∨ v = 1 := by omega
      rcases hcases with rfl | rfl <;> rfl
    rw [hroot]
  · have hne : v ≠ 0 := by omega
    have hbits := (size_le_iff_log2 hne _).mp h
    have hshift : (((Nat.log2 v : ℤ) + 1 + 1) / 2).toNat = (Nat.log2 v + 1 + 1) / 2 := by omega
    rw [integerSqrt_eq (not_lt.mp hsmall), Machine.unsigned_eq (by omega) (by omega), pure_bind,
      Machine.unsigned_eq (by omega) (by omega), pure_bind, hshift, Nat.shiftLeft_eq, Nat.one_mul]
    rw [newton_eq (by omega) (Nat.two_pow_pos _) (newton_start_above hne)]

/-- **Past `unsigned int` the iteration starts below the root and stays there.** -/
theorem integerSqrt_truncated {v : ℕ} (h : 2 ^ 32 - 2 < v.size) :
    ∃ r, integerSqrt v = some r ∧ r.value < Nat.sqrt v := by
  have hne : v ≠ 0 := by
    rintro rfl
    rw [Nat.size_zero] at h
    omega
  have hbits : 2 ^ 32 - 2 ≤ Nat.log2 v := not_lt.mp fun hlt => by
    have hle := (size_le_iff_log2 hne _).mpr hlt
    omega
  have htwo : 2 ≤ v := by
    by_contra hlt
    have hone : v = 1 := by omega
    rw [hone] at hbits
    exact absurd hbits (by decide)
  -- the shift that is left after both reductions
  have hrounded : (Machine.unsigned 32 ((Machine.unsigned 32 (Nat.log2 v + 1)).value + 1)).value
      = ((Nat.log2 v : ℤ) + 2) % 2 ^ 32 := by
    unfold Machine.unsigned
    dsimp only
    omega
  generalize hk : (((Nat.log2 v : ℤ) + 2) % 2 ^ 32 / 2).toNat = k
  have hlt : k < Nat.log2 v / 2 := by omega
  have hroot : 2 ^ (Nat.log2 v / 2) * 2 ^ (Nat.log2 v / 2) ≤ v := by
    rw [← Nat.pow_add]
    exact (Nat.pow_le_pow_right (by decide) (by omega)).trans (Nat.log2_self_le hne)
  have hpow : 2 ^ k < 2 ^ (Nat.log2 v / 2) := Nat.pow_lt_pow_right (by decide) hlt
  refine ⟨_, integerSqrt_eq htwo, ?_⟩
  rw [Machine.bind_value, Machine.bind_value, hrounded, hk, Nat.shiftLeft_eq, Nat.one_mul,
    newton_below (Nat.two_pow_pos _) ((Nat.mul_le_mul hpow.le hpow.le).trans hroot)]
  exact hpow.trans_le (Nat.le_sqrt.mpr hroot)

end AttestedCompute.Hurst
