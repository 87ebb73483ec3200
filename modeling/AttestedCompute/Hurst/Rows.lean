import AttestedCompute.Hurst.Prefixes

/-!
# One row

A row adds to the state and passes four checks in turn, each reached only when the ones before it
accepted. `RowPasses` is what they decide together. `RowFits` is the size of the state at which no
product wraps on the way: a condition on each check that is reached. The last check needs none,
because a state that passed the third is small enough for it.
-/

namespace AttestedCompute.Hurst

/-! ## What a row's checks decide -/

/-- The right endpoint of the first little Mertens check. -/
def rightEndpoint (n : ℕ) : ℕ := if n < kLittle211Limit then n + 1 else n

def HurstPasses (s : PrefixDelta) (n : ℕ) : Prop := kHurstLower ≤ n → HurstTest s.mertens n

/-- The value at the row, then the limit from the right. -/
def SquarefreePasses (threshold numerator : ℕ) (s : PrefixDelta) (n : ℕ) : Prop :=
  (threshold ≤ n → EndpointTest s.squarefree n numerator)
    ∧ (threshold ≤ n → n ≠ kSourceLimit → EndpointTest s.squarefree (n + 1) numerator)

def LittlePasses (stronger : Bool) (s : PrefixDelta) (right : ℕ) : Prop :=
  LittleTest stronger right s.littleLower ∧ LittleTest stronger right s.littleUpper

/-- The four checks of a row. -/
structure RowPasses (s : PrefixDelta) (n : ℕ) : Prop where
  hurst : HurstPasses s n
  b1 : SquarefreePasses kSquarefreeB1Threshold 151 s n
  b2 : SquarefreePasses kSquarefreeB2Threshold 57 s n
  little : n ≤ kLittle211Limit → LittlePasses false s (rightEndpoint n)
  stronger : n ≥ kLittleStrongerLower ∧ n < kLittleStrongerLimit → LittlePasses true s (n + 1)

/-- The sizes at which no operation of a row wraps, for the checks that are reached. -/
structure RowFits (s : PrefixDelta) (n : ℕ) : Prop where
  state : s.Fits
  hurst : kHurstLower ≤ n → HurstFits s.mertens
  squarefree : kSquarefreeB1Threshold ≤ n → HurstPasses s n →
    SideFits (upperDeviation s.squarefree n)
  little : n ≤ kLittle211Limit → HurstPasses s n →
    SquarefreePasses kSquarefreeB1Threshold 151 s n →
    SquarefreePasses kSquarefreeB2Threshold 57 s n →
    LittleFits false (rightEndpoint n) s.littleLower s.littleUpper

/-! ## The checks, one by one -/

theorem Decides.guarded {condition : Prop} [Decidable condition] {check : Machine Verdict}
    {P : Prop} (h : condition → Decides check P) (counters : VerificationCounters) :
    Decides (if condition then check else pure ⟨true, counters⟩) (condition → P) := by
  by_cases hcondition : condition
  · obtain ⟨verdict, hverdict, hiff⟩ := h hcondition
    rw [if_pos hcondition]
    exact ⟨verdict, hverdict, hiff.trans ⟨fun h _ => h, fun h => h hcondition⟩⟩
  · rw [if_neg hcondition]
    exact decides_accept (fun hc => absurd hc hcondition) counters

/-- The floor root that a row moves along, from any start. -/
theorem advanceFloorRoot_isRoot {value : ℕ} (hvalue : value < 2 ^ 64) (start : UInt64) :
    ∃ root, advanceFloorRoot (UInt64.ofNat value) start = pure root ∧ IsRoot root value := by
  obtain ⟨root, hroot, hsqrt⟩ := advanceFloorRoot_eq (UInt64.ofNat value) start
  rw [UInt64.toNat_ofNat_of_lt' hvalue] at hsqrt
  exact ⟨root, hroot, ⟨hsqrt⟩⟩

/-- The deviation at the next integer is smaller. -/
theorem upperDeviation_succ {squarefree : ℤ} {n : ℕ} (h : SideFits (upperDeviation squarefree n)) :
    SideFits (upperDeviation squarefree (n + 1)) := by
  unfold SideFits upperDeviation kDensityLower at h ⊢
  push_cast
  omega

theorem squarefreeSafe_decides {s : PrefixDelta} {n threshold numerator : ℕ}
    {root rightRoot : UInt64} (hn : n ≤ kSourceLimit) (hnumerator : numerator ≤ 151)
    (hroot : IsRoot root n) (hright : n < kSourceLimit → IsRoot rightRoot (n + 1)) (hs : s.Fits)
    (hfits : threshold ≤ n → SideFits (upperDeviation s.squarefree n))
    (counters : VerificationCounters) :
    Decides (squarefreeSafe n s.squarefree root rightRoot threshold numerator counters)
      (SquarefreePasses threshold numerator s n) := by
  have hinclusive : threshold ≤ n → Decides
      (verifySquarefreeEndpoint n s.squarefree numerator 2000 root counters)
      (EndpointTest s.squarefree n numerator) := fun hreached =>
    verifySquarefreeEndpoint_decides (hn.trans (Nat.le_succ _)) hnumerator hroot
      hs.squarefree_nonneg hs.squarefree_lt (hfits hreached) counters
  have hlimit : ∀ after, Decides
      (if n < threshold ∨ n = kSourceLimit then pure ⟨true, after⟩
        else verifySquarefreeEndpoint (n + 1) s.squarefree numerator 2000 rightRoot after)
      (threshold ≤ n → n ≠ kSourceLimit → EndpointTest s.squarefree (n + 1) numerator) := by
    intro after
    by_cases hskip : n < threshold ∨ n = kSourceLimit
    · rw [if_pos hskip]
      exact decides_accept (fun hreached hne => by omega) after
    · have hreached : threshold ≤ n := by omega
      have hne : n ≠ kSourceLimit := fun h => hskip (Or.inr h)
      obtain ⟨verdict, hverdict, hiff⟩ := verifySquarefreeEndpoint_decides (Nat.succ_le_succ hn)
        hnumerator (hright (lt_of_le_of_ne hn hne)) hs.squarefree_nonneg hs.squarefree_lt
        (upperDeviation_succ (hfits hreached)) after
      rw [if_neg hskip]
      exact ⟨verdict, hverdict, hiff.trans ⟨fun h _ _ => h, fun h => h hreached hne⟩⟩
  exact (Decides.guarded hinclusive counters).and fun _ => hlimit

theorem checkLittle_decides {s : PrefixDelta} {right : ℕ} {stronger : Bool}
    (hright : right ≤ kSourceLimit) (hs : s.Fits) (hordered : s.littleLower ≤ s.littleUpper)
    (hfits : LittleFits stronger right s.littleLower s.littleUpper) (root halfRoot : UInt64)
    (counters : VerificationCounters) :
    ∃ check, checkLittle right s stronger root halfRoot counters = pure check
      ∧ (check.verdict.accepted = true ↔ LittlePasses stronger s right) := by
  unfold kSourceLimit at hright
  obtain ⟨rightRoot, hrightRoot, hisRight⟩ :=
    @advanceFloorRoot_isRoot right (by omega) root
  obtain ⟨half, hhalf, hisHalf⟩ :=
    @advanceFloorRoot_isRoot ((right + 1) / 2) (by omega) halfRoot
  obtain ⟨verdict, hverdict, hiff⟩ := verifyLittleValue_decides ⟨hright, hisRight, hisHalf⟩
    hs.lower_ge hs.upper_lt hordered hfits counters
  unfold checkLittle
  rw [hrightRoot, pure_bind, hhalf, pure_bind, hverdict, pure_bind]
  exact ⟨_, rfl, hiff⟩

/-- **The stronger check never wraps** on a state that passed the weaker one. -/
theorem littleFits_stronger {right : ℕ} {lower upper : ℤ} (hpos : 1 ≤ right)
    (hlower : LittleTest false right lower) (hupper : LittleTest false right upper) :
    LittleFits true right lower upper := by
  have hroot : (2 * (ceilSqrt right : ℤ)) * (2 * ceilSqrt right) ≤ 16 * right := by
    have hsqrt : 1 ≤ Nat.sqrt right := Nat.le_sqrt.mpr hpos
    have hceil : ceilSqrt right ≤ 2 * Nat.sqrt right := by
      unfold ceilSqrt
      split <;> omega
    have hsquare : ceilSqrt right * ceilSqrt right ≤ 4 * right := by
      calc ceilSqrt right * ceilSqrt right ≤ 2 * Nat.sqrt right * (2 * Nat.sqrt right) :=
            Nat.mul_le_mul hceil hceil
        _ = 4 * (Nat.sqrt right * Nat.sqrt right) := by ring
        _ ≤ 4 * right := Nat.mul_le_mul_left 4 (Nat.sqrt_le right)
    have hcast : (ceilSqrt right : ℤ) * ceilSqrt right ≤ 4 * right := by exact_mod_cast hsquare
    linarith
  have hbound : ∀ value : ℤ, LittleTest false right value →
      |value| * littleMultiplier true right < 2 ^ 128 := by
    intro value htest
    have hweak : (right : ℤ) * |value| * |value| ≤ 2 * kLittleScale * kLittleScale := htest
    refine lt_of_mul_self_lt_mul_self₀ (by decide) ?_
    calc |value| * littleMultiplier true right * (|value| * littleMultiplier true right)
        = (2 * (ceilSqrt right : ℤ)) * (2 * ceilSqrt right) * (|value| * |value|) := by
          change |value| * (2 * (ceilSqrt right : ℤ)) * (|value| * (2 * (ceilSqrt right : ℤ))) = _
          ring
      _ ≤ 16 * right * (|value| * |value|) :=
          mul_le_mul_of_nonneg_right hroot (mul_self_nonneg _)
      _ = 16 * ((right : ℤ) * |value| * |value|) := by ring
      _ ≤ 16 * (2 * kLittleScale * kLittleScale) := mul_le_mul_of_nonneg_left hweak (by decide)
      _ < 2 ^ 128 * 2 ^ 128 := by decide
  refine ⟨fun h => ?_, fun h _ => ?_⟩
  · have hlt := hbound upper hupper
    rwa [abs_of_pos h] at hlt
  · have hlt := hbound lower hlower
    rwa [abs_of_neg h] at hlt

/-! ## A whole row -/

/-- A row's outcome: the exact next state, and whether it passes. -/
def RowDecides (outcome : Machine Row) (s : PrefixDelta) (P : Prop) : Prop :=
  ∃ next, outcome = pure next ∧ next.state = s ∧ (next.failure = none ↔ P)

theorem rowDecides_fail {s : PrefixDelta} {P : Prop} (h : ¬ P) (root halfRoot : UInt64)
    (counters : VerificationCounters) (atom : String) :
    RowDecides (pure ⟨s, root, halfRoot, counters, some atom⟩) s P :=
  ⟨_, rfl, rfl, iff_of_false (Option.some_ne_none atom) h⟩

/-- The right root is moved on where there is a right limit. -/
theorem rightRoot_eq {n : ℕ} (hn : n ≤ kSourceLimit) (root : UInt64) :
    ∃ rightRoot,
      (if n < kSourceLimit then advanceFloorRoot (UInt64.ofNat (n + 1)) root else pure root)
        = pure rightRoot ∧ (n < kSourceLimit → IsRoot rightRoot (n + 1)) := by
  have hsource : n ≤ 10000000000000000 := hn
  by_cases hbelow : n < kSourceLimit
  · obtain ⟨rightRoot, hrightRoot, hisRight⟩ := @advanceFloorRoot_isRoot (n + 1) (by omega) root
    rw [if_pos hbelow]
    exact ⟨rightRoot, hrightRoot, fun _ => hisRight⟩
  · rw [if_neg hbelow]
    exact ⟨root, rfl, fun h => absurd h hbelow⟩

theorem bothSquarefreeSafe_decides {s : PrefixDelta} {n : ℕ} {root rightRoot : UInt64}
    (hn : n ≤ kSourceLimit) (hroot : IsRoot root n)
    (hright : n < kSourceLimit → IsRoot rightRoot (n + 1)) (hs : s.Fits)
    (hfits : kSquarefreeB1Threshold ≤ n → SideFits (upperDeviation s.squarefree n))
    (counters : VerificationCounters) :
    Decides (bothSquarefreeSafe n s.squarefree root rightRoot counters)
      (SquarefreePasses kSquarefreeB1Threshold 151 s n
        ∧ SquarefreePasses kSquarefreeB2Threshold 57 s n) := by
  have hthresholds : kSquarefreeB1Threshold ≤ kSquarefreeB2Threshold := by decide
  have hb1 := squarefreeSafe_decides hn le_rfl hroot hright hs hfits counters
  have hb2 := squarefreeSafe_decides hn (by decide : 57 ≤ 151) hroot hright hs
    (fun hreached => hfits (hthresholds.trans hreached))
  exact hb1.and fun _ => hb2

/-- The first little Mertens check, up to the limit. -/
theorem little_decides {s : PrefixDelta} {n : ℕ} (hs : s.Fits)
    (hordered : s.littleLower ≤ s.littleUpper)
    (hfits : n ≤ kLittle211Limit → LittleFits false (rightEndpoint n) s.littleLower s.littleUpper)
    (root halfRoot : UInt64) (counters : VerificationCounters) :
    ∃ check, (if n ≤ kLittle211Limit then
        checkLittle (if n < kLittle211Limit then n + 1 else n) s false root halfRoot counters
      else pure ⟨⟨true, counters⟩, halfRoot⟩) = pure check
      ∧ (check.verdict.accepted = true
        ↔ (n ≤ kLittle211Limit → LittlePasses false s (rightEndpoint n))) := by
  by_cases hreached : n ≤ kLittle211Limit
  · have hright : rightEndpoint n ≤ kSourceLimit := by
      unfold rightEndpoint
      unfold kLittle211Limit at hreached ⊢
      unfold kSourceLimit
      split <;> omega
    obtain ⟨check, hcheck, hiff⟩ :=
      checkLittle_decides hright hs hordered (hfits hreached) root halfRoot counters
    rw [if_pos hreached]
    exact ⟨check, hcheck, hiff.trans ⟨fun h _ => h, fun h => h hreached⟩⟩
  · rw [if_neg hreached]
    exact ⟨_, rfl, iff_of_true rfl fun h => absurd h hreached⟩

/-- The stronger check after it, on its own range. -/
theorem stronger_decides {s : PrefixDelta} {n : ℕ} (hs : s.Fits)
    (hordered : s.littleLower ≤ s.littleUpper)
    (hpassed : n ≤ kLittle211Limit → LittlePasses false s (rightEndpoint n)) (root : UInt64)
    {little : LittleCheck} (hlittle : little.verdict.accepted = true) :
    ∃ check, (if n ≥ kLittleStrongerLower ∧ n < kLittleStrongerLimit then
        checkLittle (n + 1) s true root little.halfRoot little.verdict.counters
      else pure little) = pure check
      ∧ (check.verdict.accepted = true
        ↔ (n ≥ kLittleStrongerLower ∧ n < kLittleStrongerLimit → LittlePasses true s (n + 1))) := by
  by_cases hreached : n ≥ kLittleStrongerLower ∧ n < kLittleStrongerLimit
  · have hbelow : n < kLittle211Limit := hreached.2.trans (by decide)
    have hright : rightEndpoint n = n + 1 := if_pos hbelow
    have hlimit : n + 1 ≤ kSourceLimit := hbelow.trans_le (by decide)
    have hpass := hpassed hbelow.le
    rw [hright] at hpass
    obtain ⟨check, hcheck, hiff⟩ := checkLittle_decides hlimit hs hordered
      (littleFits_stronger (Nat.succ_le_succ (Nat.zero_le n)) hpass.1 hpass.2) root
      little.halfRoot little.verdict.counters
    rw [if_pos hreached]
    exact ⟨check, hcheck, hiff.trans ⟨fun h _ => h, fun h => h hreached⟩⟩
  · rw [if_neg hreached]
    exact ⟨little, rfl, iff_of_true hlittle fun h => absurd h hreached⟩

/-- **A row is exact**: it reaches the exact next state, and its verdict is that of the four
checks. -/
theorem verifyRow_decides {n : ℕ} {mu : ℤ} {row : Row} {s : PrefixDelta} (hpos : 1 ≤ n)
    (hn : n ≤ kSourceLimit) (hs : row.state + rowDelta n mu = s) (hfits : RowFits s n)
    (hordered : s.littleLower ≤ s.littleUpper) :
    RowDecides (verifyRow n mu row) s (RowPasses s n) := by
  have hsource : n ≤ 10000000000000000 := hn
  obtain ⟨root, hroot, hisRoot⟩ := @advanceFloorRoot_isRoot n (by omega) row.root
  have hstate : addMobiusRow row.state n mu = pure s := by
    subst hs
    exact addMobiusRow_eq hpos hfits.state
  obtain ⟨hurst, hhurst, hiffHurst⟩ := Decides.guarded (fun hreached : kHurstLower ≤ n =>
    verifyHurstValue_decides hn hisRoot hfits.state.mertens_ge hfits.state.mertens_lt
      (hfits.hurst hreached) row.counters) row.counters
  obtain ⟨rightRoot, hrightRoot, hisRight⟩ := rightRoot_eq hn root
  unfold verifyRow
  rw [hroot, pure_bind, hstate, pure_bind, hhurst, pure_bind]
  -- each check that rejects ends the row, each that accepts is a hypothesis of the next
  by_cases hacceptHurst : hurst.accepted = true
  swap
  · rw [if_pos hacceptHurst]
    exact rowDecides_fail (fun h => hacceptHurst (hiffHurst.mpr h.hurst)) _ _ _ _
  have hpassHurst : HurstPasses s n := hiffHurst.mp hacceptHurst
  obtain ⟨squarefree, hsquarefree, hiffSquarefree⟩ := bothSquarefreeSafe_decides hn hisRoot hisRight
    hfits.state (fun hreached => hfits.squarefree hreached hpassHurst) hurst.counters
  rw [if_neg (not_not.mpr hacceptHurst), hrightRoot, pure_bind, hsquarefree, pure_bind]
  by_cases hacceptSquarefree : squarefree.accepted = true
  swap
  · rw [if_pos hacceptSquarefree]
    exact rowDecides_fail (fun h => hacceptSquarefree (hiffSquarefree.mpr ⟨h.b1, h.b2⟩)) _ _ _ _
  obtain ⟨hpassB1, hpassB2⟩ := hiffSquarefree.mp hacceptSquarefree
  obtain ⟨little, hlittle, hiffLittle⟩ := little_decides hfits.state hordered
    (fun hreached => hfits.little hreached hpassHurst hpassB1 hpassB2) root row.halfRoot
    squarefree.counters
  rw [if_neg (not_not.mpr hacceptSquarefree), hlittle, pure_bind]
  by_cases hacceptLittle : little.verdict.accepted = true
  swap
  · rw [if_pos hacceptLittle]
    exact rowDecides_fail (fun h => hacceptLittle (hiffLittle.mpr h.little)) _ _ _ _
  have hpassLittle := hiffLittle.mp hacceptLittle
  obtain ⟨stronger, hstronger, hiffStronger⟩ :=
    stronger_decides hfits.state hordered hpassLittle root hacceptLittle
  rw [if_neg (not_not.mpr hacceptLittle), hstronger, pure_bind]
  by_cases hacceptStronger : stronger.verdict.accepted = true
  swap
  · rw [if_pos hacceptStronger]
    exact rowDecides_fail (fun h => hacceptStronger (hiffStronger.mpr h.stronger)) _ _ _ _
  rw [if_neg (not_not.mpr hacceptStronger)]
  exact ⟨_, rfl, rfl, iff_of_true rfl
    ⟨hpassHurst, hpassB1, hpassB2, hpassLittle, hiffStronger.mp hacceptStronger⟩⟩

end AttestedCompute.Hurst
