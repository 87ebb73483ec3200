import AttestedCompute.Hurst.NoWrap

/-!
# The prefix states of a shard

A state is the incoming one and the sum of the rows so far, taken block by block and segment by
segment. The sums commute with the way they are cut up, so each of them is a sum over a range of
rows. What the rows add on their own is small: one for the first two components at each row, and
for the directed interval a harmonic sum up to `10^12`, less than seven bits above the scale. So
only the incoming state can make a prefix wrap.
-/

namespace AttestedCompute.Hurst

/-! ## States as an additive monoid -/

namespace PrefixDelta

@[simp] theorem zero_mertens : (0 : PrefixDelta).mertens = 0 := rfl
@[simp] theorem zero_squarefree : (0 : PrefixDelta).squarefree = 0 := rfl
@[simp] theorem zero_littleLower : (0 : PrefixDelta).littleLower = 0 := rfl
@[simp] theorem zero_littleUpper : (0 : PrefixDelta).littleUpper = 0 := rfl

@[simp] theorem add_mertens (a b : PrefixDelta) : (a + b).mertens = a.mertens + b.mertens := rfl

@[simp] theorem add_squarefree (a b : PrefixDelta) :
    (a + b).squarefree = a.squarefree + b.squarefree := rfl

@[simp] theorem add_littleLower (a b : PrefixDelta) :
    (a + b).littleLower = a.littleLower + b.littleLower := rfl

@[simp] theorem add_littleUpper (a b : PrefixDelta) :
    (a + b).littleUpper = a.littleUpper + b.littleUpper := rfl

instance : AddCommMonoid PrefixDelta where
  add_assoc a b c := by ext <;> simp [add_assoc]
  zero_add a := by ext <;> simp
  add_zero a := by ext <;> simp
  add_comm a b := by ext <;> simp [add_comm]
  nsmul := nsmulRec

/-- The components of a state that fits, as machine results. -/
theorem Fits.mertens_eq {s : PrefixDelta} (h : s.Fits) : i64 s.mertens = pure s.mertens :=
  i64_eq h.mertens_ge h.mertens_lt

theorem Fits.squarefree_eq {s : PrefixDelta} (h : s.Fits) : u64 s.squarefree = pure s.squarefree :=
  u64_eq h.squarefree_nonneg h.squarefree_lt

theorem Fits.lower_eq {s : PrefixDelta} (h : s.Fits) : i128 s.littleLower = pure s.littleLower :=
  i128_eq h.lower_ge h.lower_lt

theorem Fits.upper_eq {s : PrefixDelta} (h : s.Fits) : i128 s.littleUpper = pure s.littleUpper :=
  i128_eq h.upper_ge h.upper_lt

end PrefixDelta

/-- A sum of states that fits is the sum. -/
theorem addDelta_eq {a b : PrefixDelta} (h : (a + b).Fits) : addDelta a b = pure (a + b) := by
  have hmertens : i64 (a.mertens + b.mertens) = pure (a + b).mertens := h.mertens_eq
  have hsquarefree : u64 (a.squarefree + b.squarefree) = pure (a + b).squarefree := h.squarefree_eq
  have hlower : i128 (a.littleLower + b.littleLower) = pure (a + b).littleLower := h.lower_eq
  have hupper : i128 (a.littleUpper + b.littleUpper) = pure (a + b).littleUpper := h.upper_eq
  unfold addDelta
  rw [hmertens, pure_bind, hsquarefree, pure_bind, hlower, pure_bind, hupper, pure_bind]

/-! ## What a row adds -/

/-- `floor_reciprocal` -/
def floorReciprocal (n : ℕ) : ℤ := kLittleScale / (n : ℤ)

/-- `ceil_reciprocal` -/
def ceilReciprocal (n : ℕ) : ℤ := floorReciprocal n + if kLittleScale % n ≠ 0 then 1 else 0

theorem floorReciprocal_nonneg (n : ℕ) : 0 ≤ floorReciprocal n :=
  Int.ediv_nonneg (by decide) (Int.natCast_nonneg n)

theorem floorReciprocal_le (n : ℕ) : floorReciprocal n ≤ kLittleScale :=
  Int.ediv_le_self _ (by decide)

theorem floor_le_ceil (n : ℕ) : floorReciprocal n ≤ ceilReciprocal n := by
  unfold ceilReciprocal
  split <;> omega

theorem ceil_le_succ (n : ℕ) : ceilReciprocal n ≤ floorReciprocal n + 1 := by
  unfold ceilReciprocal
  split <;> omega

theorem ceilReciprocal_eq (n : ℕ) :
    i128 (floorReciprocal n + if kLittleScale % n ≠ 0 then 1 else 0) = pure (ceilReciprocal n) := by
  have hnonneg := floorReciprocal_nonneg n
  have hle := floorReciprocal_le n
  have hge := floor_le_ceil n
  have hsucc := ceil_le_succ n
  unfold kLittleScale at hle
  change i128 (ceilReciprocal n) = _
  exact i128_eq (by omega) (by omega)

/-- The exact change of the state at a row. -/
def rowDelta (n : ℕ) (mu : ℤ) : PrefixDelta :=
  { mertens := mu
    squarefree := if mu ≠ 0 then 1 else 0
    littleLower := if n > kLittle211Limit ∨ mu = 0 then 0
      else if mu > 0 then floorReciprocal n else -ceilReciprocal n
    littleUpper := if n > kLittle211Limit ∨ mu = 0 then 0
      else if mu > 0 then ceilReciprocal n else -floorReciprocal n }

/-- **Adding a row** is exact when the sum fits. -/
theorem addMobiusRow_eq {delta : PrefixDelta} {n : ℕ} {mu : ℤ} (hn : 1 ≤ n)
    (h : (delta + rowDelta n mu).Fits) :
    addMobiusRow delta n mu = pure (delta + rowDelta n mu) := by
  have hmertens : i64 (delta.mertens + mu) = pure (delta + rowDelta n mu).mertens := h.mertens_eq
  have hsquarefree : (if mu ≠ 0 then u64 (delta.squarefree + 1) else pure delta.squarefree)
      = pure (delta + rowDelta n mu).squarefree := by
    have hsum := h.squarefree_eq
    simp only [PrefixDelta.add_squarefree, rowDelta] at hsum ⊢
    by_cases hmu : mu ≠ 0
    · rw [if_pos hmu] at hsum
      rw [if_pos hmu, if_pos hmu, hsum]
    · rw [if_neg hmu, if_neg hmu, add_zero]
  have hlower := h.lower_eq
  have hupper := h.upper_eq
  unfold addMobiusRow
  rw [hmertens, pure_bind, hsquarefree, pure_bind]
  by_cases hskip : n > kLittle211Limit ∨ mu = 0
  · have hlittle : delta.littleLower = (delta + rowDelta n mu).littleLower
        ∧ delta.littleUpper = (delta + rowDelta n mu).littleUpper := by
      simp only [PrefixDelta.add_littleLower, PrefixDelta.add_littleUpper, rowDelta, if_pos hskip,
        add_zero, and_self]
    rw [if_pos hskip, hlittle.1, hlittle.2]
  · have hquotient : Machine.quotient kLittleScale (n : ℤ) = pure (floorReciprocal n) :=
      Machine.quotient_eq (by omega)
    rw [if_neg hskip, hquotient, pure_bind, ceilReciprocal_eq, pure_bind]
    by_cases hmu : mu > 0
    · have hlittle : (delta + rowDelta n mu).littleLower = delta.littleLower + floorReciprocal n
          ∧ (delta + rowDelta n mu).littleUpper = delta.littleUpper + ceilReciprocal n := by
        simp only [PrefixDelta.add_littleLower, PrefixDelta.add_littleUpper, rowDelta,
          if_neg hskip, if_pos hmu, and_self]
      rw [if_pos hmu, ← hlittle.1, hlower, pure_bind, ← hlittle.2, hupper, pure_bind]
    · have hlittle : (delta + rowDelta n mu).littleLower = delta.littleLower - ceilReciprocal n
          ∧ (delta + rowDelta n mu).littleUpper = delta.littleUpper - floorReciprocal n := by
        simp only [PrefixDelta.add_littleLower, PrefixDelta.add_littleUpper, rowDelta,
          if_neg hskip, if_neg hmu, sub_eq_add_neg, and_self]
      rw [if_neg hmu, ← hlittle.1, hlower, pure_bind, ← hlittle.2, hupper, pure_bind]

/-! ## What a range of rows adds -/

/-- The change at a row of the sieve, where an invalid one is passed over. -/
def sieveDelta (values : ℕ → ℤ) (n : ℕ) : PrefixDelta :=
  if invalid (values n) then 0 else rowDelta n (values n)

/-- The exact change over the rows from `a` up to, not including, `b`. -/
def localDelta (values : ℕ → ℤ) (a b : ℕ) : PrefixDelta :=
  ∑ n ∈ Finset.Ico a b, sieveDelta values n

theorem localDelta_self (values : ℕ → ℤ) (a : ℕ) : localDelta values a a = 0 := by
  unfold localDelta
  rw [Finset.Ico_self, Finset.sum_empty]

theorem localDelta_succ (values : ℕ → ℤ) {a b : ℕ} (h : a ≤ b) :
    localDelta values a (b + 1) = localDelta values a b + sieveDelta values b :=
  Finset.sum_Ico_succ_top h _

theorem localDelta_append (values : ℕ → ℤ) {a b c : ℕ} (hab : a ≤ b) (hbc : b ≤ c) :
    localDelta values a b + localDelta values b c = localDelta values a c :=
  Finset.sum_Ico_consecutive _ hab hbc

/-- A state of at most `rows` in the first two components and `weight` in the interval. -/
structure PrefixDelta.Small (s : PrefixDelta) (rows weight : ℤ) : Prop where
  mertens : |s.mertens| ≤ rows
  squarefree_nonneg : 0 ≤ s.squarefree
  squarefree : s.squarefree ≤ rows
  lower : |s.littleLower| ≤ weight
  upper : |s.littleUpper| ≤ weight

theorem PrefixDelta.Small.add {s t : PrefixDelta} {rows rows' weight weight' : ℤ}
    (hs : s.Small rows weight) (ht : t.Small rows' weight') :
    (s + t).Small (rows + rows') (weight + weight') where
  mertens := (abs_add_le _ _).trans (add_le_add hs.mertens ht.mertens)
  squarefree_nonneg := add_nonneg hs.squarefree_nonneg ht.squarefree_nonneg
  squarefree := add_le_add hs.squarefree ht.squarefree
  lower := (abs_add_le _ _).trans (add_le_add hs.lower ht.lower)
  upper := (abs_add_le _ _).trans (add_le_add hs.upper ht.upper)

theorem PrefixDelta.Small.fits {s : PrefixDelta} {rows weight : ℤ} (h : s.Small rows weight)
    (hrows : rows < 2 ^ 63) (hweight : weight < 2 ^ 127) : s.Fits := by
  have hmertens := abs_le.mp h.mertens
  have hlower := abs_le.mp h.lower
  have hupper := abs_le.mp h.upper
  have hsquarefree := h.squarefree
  exact ⟨by omega, by omega, h.squarefree_nonneg, by omega, by omega, by omega, by omega, by omega⟩

/-- A bound on the reciprocal of a row. -/
def rowWeight (n : ℕ) : ℕ := if n ≤ kLittle211Limit then 2 ^ 96 / n + 1 else 0

/-- What a row puts into the interval is at most its rounded-up reciprocal. -/
theorem abs_le_rowWeight {n : ℕ} {x : ℤ} (hn : n ≤ kLittle211Limit) (hlo : -ceilReciprocal n ≤ x)
    (hhi : x ≤ ceilReciprocal n) : |x| ≤ rowWeight n := by
  have hfloor : floorReciprocal n = ((2 ^ 96 / n : ℕ) : ℤ) := by
    unfold floorReciprocal kLittleScale
    push_cast
    rfl
  have hsucc := ceil_le_succ n
  unfold rowWeight
  rw [if_pos hn, abs_le]
  push_cast at hfloor ⊢
  omega

theorem rowDelta_small {n : ℕ} {mu : ℤ} (hlo : -1 ≤ mu) (hhi : mu ≤ 1) :
    (rowDelta n mu).Small 1 (rowWeight n) := by
  have hnonneg := floorReciprocal_nonneg n
  have hge := floor_le_ceil n
  have hweight : 0 ≤ (rowWeight n : ℤ) := Int.natCast_nonneg _
  refine ⟨abs_le.mpr ⟨hlo, hhi⟩, ?_, ?_, ?_, ?_⟩
  · simp only [rowDelta]
    split <;> decide
  · simp only [rowDelta]
    split <;> decide
  · simp only [rowDelta]
    by_cases hskip : n > kLittle211Limit ∨ mu = 0
    · rwa [if_pos hskip, abs_zero]
    · rw [if_neg hskip]
      refine abs_le_rowWeight (by omega) ?_ ?_
      · split <;> omega
      · split <;> omega
  · simp only [rowDelta]
    by_cases hskip : n > kLittle211Limit ∨ mu = 0
    · rwa [if_pos hskip, abs_zero]
    · rw [if_neg hskip]
      refine abs_le_rowWeight (by omega) ?_ ?_
      · split <;> omega
      · split <;> omega

theorem sieveDelta_small (values : ℕ → ℤ) (n : ℕ) :
    (sieveDelta values n).Small 1 (rowWeight n) := by
  unfold sieveDelta
  by_cases hinvalid : invalid (values n) = true
  · rw [if_pos hinvalid]
    exact ⟨by decide, le_rfl, by decide, Int.natCast_nonneg _, Int.natCast_nonneg _⟩
  · have hvalid := of_decide_eq_false (Bool.eq_false_iff.mpr hinvalid)
    rw [if_neg hinvalid]
    exact rowDelta_small (by omega) (by omega)

theorem localDelta_small (values : ℕ → ℤ) {a b : ℕ} (h : a ≤ b) :
    (localDelta values a b).Small ((b - a : ℕ) : ℤ)
      ((∑ n ∈ Finset.Ico a b, rowWeight n : ℕ) : ℤ) := by
  induction b, h using Nat.le_induction with
  | base =>
      rw [localDelta_self, Nat.sub_self, Finset.Ico_self, Finset.sum_empty]
      exact ⟨le_rfl, le_rfl, le_rfl, le_rfl, le_rfl⟩
  | succ b hab ih =>
      have hadd := ih.add (sieveDelta_small values b)
      rw [← localDelta_succ values hab] at hadd
      rw [Finset.sum_Ico_succ_top hab, Nat.succ_sub hab]
      push_cast at hadd ⊢
      exact hadd

/-- The rows that have a reciprocal are those up to the limit. -/
theorem rowWeight_sum_le {a : ℕ} (ha : 1 ≤ a) (b : ℕ) :
    ∑ n ∈ Finset.Ico a b, rowWeight n ≤ ∑ n ∈ Finset.Icc 1 kLittle211Limit, (2 ^ 96 / n + 1) := by
  have hsub : ∑ n ∈ Finset.Ico a b, rowWeight n
      ≤ ∑ n ∈ Finset.Icc 1 kLittle211Limit, rowWeight n := by
    refine Finset.sum_le_sum_of_ne_zero fun n hn hne => ?_
    have hlimit : n ≤ kLittle211Limit := by
      by_contra hover
      exact hne (if_neg hover)
    exact Finset.mem_Icc.mpr ⟨ha.trans (Finset.mem_Ico.mp hn).1, hlimit⟩
  exact hsub.trans_eq (Finset.sum_congr rfl fun n hn => if_pos (Finset.mem_Icc.mp hn).2)

/-- A sum of scaled reciprocals by the harmonic number. -/
theorem reciprocals_le_harmonic (scale limit : ℕ) :
    ((∑ n ∈ Finset.Icc 1 limit, (scale / n + 1) : ℕ) : ℝ)
      ≤ scale * (harmonic limit : ℝ) + limit := by
  have hsum : ((∑ n ∈ Finset.Icc 1 limit, (scale / n + 1) : ℕ) : ℝ)
      = ∑ n ∈ Finset.Icc 1 limit, ((scale / n : ℕ) : ℝ) + limit := by
    rw [Finset.sum_add_distrib, Finset.sum_const, Nat.card_Icc]
    push_cast
    simp
  rw [hsum, harmonic_eq_sum_Icc, Rat.cast_sum, Finset.mul_sum]
  refine add_le_add_left (Finset.sum_le_sum fun n _ => ?_) _
  rw [Rat.cast_inv, Rat.cast_natCast, ← div_eq_mul_inv]
  exact Nat.cast_div_le

/-- **The reciprocals of all rows** add up to less than seven bits above the scale. -/
theorem rowWeight_sum_lt {a : ℕ} (ha : 1 ≤ a) (b : ℕ) :
    ∑ n ∈ Finset.Ico a b, rowWeight n < 2 ^ 103 := by
  have hlog : Real.log kLittle211Limit ≤ 108 := by
    have hten : Real.log 10 ≤ 10 - 1 := Real.log_le_sub_one_of_pos (by norm_num)
    have hpow : ((kLittle211Limit : ℕ) : ℝ) = 10 ^ 12 := by
      unfold kLittle211Limit
      norm_num
    rw [hpow, Real.log_pow]
    push_cast
    linarith
  have hharmonic := harmonic_le_one_add_log kLittle211Limit
  have hreal : ((∑ n ∈ Finset.Ico a b, rowWeight n : ℕ) : ℝ) < ((2 ^ 103 : ℕ) : ℝ) := by
    calc ((∑ n ∈ Finset.Ico a b, rowWeight n : ℕ) : ℝ)
        ≤ ((∑ n ∈ Finset.Icc 1 kLittle211Limit, (2 ^ 96 / n + 1) : ℕ) : ℝ) := by
          exact_mod_cast rowWeight_sum_le ha b
      _ ≤ ((2 ^ 96 : ℕ) : ℝ) * (harmonic kLittle211Limit : ℝ) + kLittle211Limit :=
          reciprocals_le_harmonic _ _
      _ ≤ ((2 ^ 96 : ℕ) : ℝ) * 109 + kLittle211Limit := by
          have hle : (harmonic kLittle211Limit : ℝ) ≤ 109 := by linarith
          exact add_le_add_left (mul_le_mul_of_nonneg_left hle (Nat.cast_nonneg _)) _
      _ < ((2 ^ 103 : ℕ) : ℝ) := by
          unfold kLittle211Limit
          norm_num
  exact_mod_cast hreal

/-- **The rows of a shard** never wrap on their own. -/
theorem localDelta_fits (values : ℕ → ℤ) {a b : ℕ} (ha : 1 ≤ a) (hab : a ≤ b)
    (hb : b ≤ kSourceLimit + 1) : (localDelta values a b).Fits := by
  have hweight := rowWeight_sum_lt ha b
  unfold kSourceLimit at hb
  exact (localDelta_small values hab).fits (by omega) (by exact_mod_cast hweight.trans (by decide))

/-- The two ends stay in order. -/
theorem sieveDelta_ordered (values : ℕ → ℤ) (n : ℕ) :
    (sieveDelta values n).littleLower ≤ (sieveDelta values n).littleUpper := by
  have hge := floor_le_ceil n
  unfold sieveDelta
  split
  · exact le_rfl
  · simp only [rowDelta]
    split
    · exact le_rfl
    · split <;> omega

theorem localDelta_ordered (values : ℕ → ℤ) {a b : ℕ} (h : a ≤ b) :
    (localDelta values a b).littleLower ≤ (localDelta values a b).littleUpper := by
  induction b, h using Nat.le_induction with
  | base =>
      rw [localDelta_self]
      exact le_rfl
  | succ b hab ih =>
      rw [localDelta_succ values hab]
      exact add_le_add ih (sieveDelta_ordered values b)

/-! ## The state of a shard at a row -/

/-- The incoming state and all rows up to `n`, itself included. -/
def Shard.stateAt (shard : Shard) (values : ℕ → ℤ) (n : ℕ) : PrefixDelta :=
  shard.incoming + localDelta values shard.lower (n + 1)

end AttestedCompute.Hurst
