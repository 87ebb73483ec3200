import AttestedCompute.Sqrt218.Words

/-!
# Two-limb division

The checker divides a 128-bit number by a word one bit at a time. The remainder is kept in two
limbs because a shifted remainder can pass 64 bits; after the subtraction it is again below the
divisor. A quotient bit at position 64 or above ends the division: the quotient does not fit.
-/

namespace AttestedCompute.Sqrt218

/-- Two explicit limbs. -/
structure Limbs where
  hi : UInt64
  lo : UInt64
  deriving DecidableEq, Repr

def Limbs.toNat (x : Limbs) : Nat := x.hi.toNat * 2 ^ 64 + x.lo.toNat

/-- `tg_sq218_u128_compare` -/
def u128Compare (left right : Limbs) : Int :=
  if left.hi < right.hi then -1
  else if left.hi > right.hi then 1
  else if left.lo < right.lo then -1
  else if left.lo > right.lo then 1
  else 0

/-- `tg_sq218_u128_sub_checked` -/
def u128SubChecked (left right : Limbs) : Option Limbs :=
  if u128Compare left right < 0 then none
  else
    let borrow : UInt64 := if left.lo < right.lo then 1 else 0
    some { lo := left.lo - right.lo, hi := left.hi - right.hi - borrow }

/-- The variables of the division loop. -/
structure DivState where
  rem : Limbs
  result : UInt64
  deriving DecidableEq, Repr

/-- The numerator bit that the loop shifts in. -/
def numeratorBit (numerator : Limbs) (bitIndex : Nat) : UInt64 :=
  if bitIndex ≥ 64 then (numerator.hi >>> UInt64.ofNat (bitIndex - 64)) &&& 1
  else (numerator.lo >>> UInt64.ofNat bitIndex) &&& 1

/-- One pass of the loop of `tg_u128_div_u64`. -/
def divStep (numerator : Limbs) (denominator : UInt64) (bitIndex : Nat) (state : DivState) :
    Option DivState :=
  if state.rem.hi > 1 ∨ state.rem.hi &&& 0x8000000000000000 ≠ 0 then none
  else
    let shifted : Limbs :=
      { hi := (state.rem.hi <<< 1) ||| (state.rem.lo >>> 63)
        lo := (state.rem.lo <<< 1) ||| numeratorBit numerator bitIndex }
    if u128Compare shifted ⟨0, denominator⟩ ≥ 0 then
      match u128SubChecked shifted ⟨0, denominator⟩ with
      | none => none
      | some rem =>
          if bitIndex ≥ 64 then none
          else some { rem := rem, result := state.result ||| ((1 : UInt64) <<< UInt64.ofNat bitIndex) }
    else some { state with rem := shifted }

/-- The loop from `position` down to zero. -/
def divLoop (numerator : Limbs) (denominator : UInt64) : Nat → DivState → Option DivState
  | 0, state => some state
  | position + 1, state =>
      (divStep numerator denominator position state).bind (divLoop numerator denominator position)

/-- `tg_u128_div_u64`, whose output pointers are never null here: the quotient and remainder. -/
def u128DivU64 (numeratorHi numeratorLo denominator : UInt64) : Option (UInt64 × UInt64) :=
  if denominator = 0 then none
  else
    match divLoop ⟨numeratorHi, numeratorLo⟩ denominator 128 ⟨⟨0, 0⟩, 0⟩ with
    | none => none
    | some state => if state.rem.hi ≠ 0 then none else some (state.result, state.rem.lo)

/-! ## Limbs -/

theorem u128Compare_neg_iff {left right : Limbs} :
    u128Compare left right < 0 ↔ left.toNat < right.toNat := by
  have hl := left.lo.toNat_lt
  have hr := right.lo.toNat_lt
  unfold u128Compare Limbs.toNat
  simp only [gt_iff_lt, UInt64.lt_iff_toNat_lt]
  split_ifs <;> simp <;> omega

theorem u128SubChecked_eq {left right : Limbs} (h : right.toNat ≤ left.toNat) :
    ∃ out, u128SubChecked left right = some out ∧ out.toNat = left.toNat - right.toNat := by
  have hl := left.lo.toNat_lt
  have hr := right.lo.toNat_lt
  have hlhi := left.hi.toNat_lt
  have hnot : ¬ u128Compare left right < 0 := fun hneg => by
    have := u128Compare_neg_iff.mp hneg
    omega
  unfold Limbs.toNat at h
  refine ⟨_, if_neg hnot, ?_⟩
  by_cases hborrow : left.lo < right.lo
  · rw [if_pos hborrow]
    rw [UInt64.lt_iff_toNat_lt] at hborrow
    have hone : (1 : UInt64).toNat = 1 := rfl
    simp only [Limbs.toNat, UInt64.toNat_sub, hone]
    omega
  · rw [if_neg hborrow]
    rw [UInt64.lt_iff_toNat_lt] at hborrow
    have hzero : (0 : UInt64).toNat = 0 := rfl
    simp only [Limbs.toNat, UInt64.toNat_sub, hzero]
    omega

/-- A number below `2^64` is in the low limb. -/
theorem hi_of_toNat_lt {x : Limbs} (h : x.toNat < 2 ^ 64) : x.hi = 0 ∧ x.lo.toNat = x.toNat := by
  unfold Limbs.toNat at h ⊢
  have hhi : x.hi.toNat = 0 := by omega
  exact ⟨UInt64.toNat_inj.mp hhi, by omega⟩

/-- The bit shifted in at `bitIndex` is that bit of the numerator. -/
theorem toNat_numeratorBit (numerator : Limbs) {bitIndex : Nat} (h : bitIndex < 128) :
    (numeratorBit numerator bitIndex).toNat = numerator.toNat / 2 ^ bitIndex % 2 := by
  have hone : (1 : UInt64).toNat = 1 := rfl
  have hbit : ∀ (limb : UInt64) (k : Nat), k < 64 →
      ((limb >>> UInt64.ofNat k) &&& 1).toNat = limb.toNat / 2 ^ k % 2 := by
    intro limb k hk
    rw [UInt64.toNat_and, UInt64.toNat_shiftRight, hone, Nat.and_one_is_mod,
      UInt64.toNat_ofNat_of_lt' (by unfold UInt64.size; omega), Nat.mod_eq_of_lt hk,
      Nat.shiftRight_eq_div_pow]
  unfold numeratorBit Limbs.toNat
  split
  · -- the low limb is below the bit
    rename_i hhigh
    obtain ⟨k, rfl⟩ : ∃ k, bitIndex = 64 + k := ⟨bitIndex - 64, by omega⟩
    have hlimb : (numerator.hi.toNat * 2 ^ 64 + numerator.lo.toNat) / 2 ^ 64 = numerator.hi.toNat := by
      have hlo := numerator.lo.toNat_lt
      omega
    rw [hbit _ _ (by omega), Nat.add_sub_cancel_left, Nat.pow_add, ← Nat.div_div_eq_div_mul, hlimb]
  · -- the high limb is an even multiple of the bit
    rename_i hlow
    have hpow : 2 ^ 64 = 2 * 2 ^ (63 - bitIndex) * 2 ^ bitIndex := by
      rw [← Nat.pow_succ', ← Nat.pow_add, show 63 - bitIndex + 1 + bitIndex = 64 by omega]
    rw [hbit _ _ (by omega), hpow, ← Nat.mul_assoc, Nat.add_comm,
      Nat.add_mul_div_right _ _ (Nat.two_pow_pos _), Nat.mul_left_comm, Nat.add_mul_mod_self_left]

/-! ## One bit of long division -/

/-- One restoring step: a bit is appended to the number divided so far. -/
theorem restoring_step {d : Nat} (hd : 0 < d) (m bit : Nat) :
    (2 * (m % d) + bit < d →
        (2 * m + bit) / d = 2 * (m / d) ∧ (2 * m + bit) % d = 2 * (m % d) + bit)
      ∧ (d ≤ 2 * (m % d) + bit → 2 * (m % d) + bit < 2 * d →
        (2 * m + bit) / d = 2 * (m / d) + 1 ∧ (2 * m + bit) % d = 2 * (m % d) + bit - d) := by
  have hsplit := Nat.div_add_mod m d
  have hdouble : d * (2 * (m / d)) = 2 * (d * (m / d)) := Nat.mul_left_comm d 2 (m / d)
  refine ⟨fun hlt => ?_, fun hge hlt => ?_⟩
  · exact (Nat.div_mod_unique hd).mpr ⟨by omega, hlt⟩
  · refine (Nat.div_mod_unique hd).mpr ⟨?_, by omega⟩
    rw [Nat.mul_add, hdouble, Nat.mul_one]
    omega

/-- What the loop holds when the bits from `position` up are divided. -/
structure Divided (numerator : Limbs) (denominator : UInt64) (position : Nat) (state : DivState) :
    Prop where
  high : state.rem.hi = 0
  rem : state.rem.lo.toNat = numerator.toNat / 2 ^ position % denominator.toNat
  result : state.result.toNat
    = numerator.toNat / 2 ^ position / denominator.toNat * 2 ^ position

/-- The remainder shifted by one place, with the carry in the high limb. -/
theorem toNat_shifted {rem bit : UInt64} (hbit : bit.toNat < 2) :
    Limbs.toNat ⟨((0 : UInt64) <<< 1) ||| (rem >>> 63), (rem <<< 1) ||| bit⟩
      = 2 * rem.toNat + bit.toNat := by
  have hrem := rem.toNat_lt
  have hone : (1 : UInt64).toNat % 64 = 1 := rfl
  have hcount : (63 : UInt64).toNat % 64 = 63 := rfl
  have hhi : (((0 : UInt64) <<< 1) ||| (rem >>> 63)).toNat = rem.toNat / 2 ^ 63 := by
    rw [show ((0 : UInt64) <<< 1) = 0 from rfl, UInt64.zero_or, UInt64.toNat_shiftRight, hcount,
      Nat.shiftRight_eq_div_pow]
  have hlo : ((rem <<< 1) ||| bit).toNat = 2 * rem.toNat % 2 ^ 64 + bit.toNat := by
    have heven : 2 * rem.toNat % 2 ^ 64 = 2 ^ 1 * (rem.toNat % 2 ^ 63) := by omega
    rw [UInt64.toNat_or, UInt64.toNat_shiftLeft, hone, Nat.shiftLeft_eq, Nat.pow_one, Nat.mul_comm,
      heven, ← Nat.two_pow_add_eq_or_of_lt (by omega)]
  rw [Limbs.toNat, hhi, hlo]
  omega

/-- A number shifted down by one place less is twice as large, with the next bit. -/
theorem div_two_pow_succ (n position : Nat) :
    n / 2 ^ position = 2 * (n / 2 ^ (position + 1)) + n / 2 ^ position % 2 := by
  rw [Nat.pow_succ, ← Nat.div_div_eq_div_mul, Nat.div_add_mod]

/-- Setting a clear bit below all others adds it. -/
theorem toNat_or_bit {result : UInt64} {q position : Nat} (hposition : position < 64)
    (h : result.toNat = q * 2 ^ (position + 1)) :
    (result ||| ((1 : UInt64) <<< UInt64.ofNat position)).toNat = (2 * q + 1) * 2 ^ position := by
  have hone : (1 : UInt64).toNat = 1 := rfl
  have hpow : 2 ^ position < 2 ^ 64 := Nat.pow_lt_pow_right (by decide) hposition
  have hbelow : 2 ^ position < 2 ^ (position + 1) := Nat.pow_lt_pow_right (by decide) (by omega)
  rw [UInt64.toNat_or, UInt64.toNat_shiftLeft, hone,
    UInt64.toNat_ofNat_of_lt' (by unfold UInt64.size; omega), Nat.mod_eq_of_lt hposition,
    Nat.shiftLeft_eq, Nat.one_mul, Nat.mod_eq_of_lt hpow, h, Nat.mul_comm q,
    ← Nat.two_pow_add_eq_or_of_lt hbelow, Nat.pow_succ]
  ring

/-- **One pass of the loop.** Either the bit is divided, or the quotient needs a bit at 64 or above
and the loop stops. -/
theorem divStep_cases {numerator : Limbs} {denominator : UInt64} {position : Nat} {state : DivState}
    (hd : 0 < denominator.toNat) (hposition : position < 128)
    (h : Divided numerator denominator (position + 1) state) :
    (∃ state', divStep numerator denominator position state = some state'
        ∧ Divided numerator denominator position state')
      ∨ (divStep numerator denominator position state = none
        ∧ 2 ^ 64 ≤ numerator.toNat / denominator.toNat) := by
  rcases state with ⟨⟨hi, lo⟩, result⟩
  obtain ⟨rfl, hrem, hresult⟩ := h
  dsimp only at hrem hresult
  have hbit := toNat_numeratorBit numerator hposition
  have hbound : (numeratorBit numerator position).toNat < 2 := by
    rw [hbit]
    exact Nat.mod_lt _ (by decide)
  have hremLt : lo.toNat < denominator.toNat := by
    rw [hrem]
    exact Nat.mod_lt _ hd
  have hshifted := @toNat_shifted lo (numeratorBit numerator position) hbound
  obtain ⟨hkeep, hsub⟩ := restoring_step hd (numerator.toNat / 2 ^ (position + 1))
    (numeratorBit numerator position).toNat
  rw [← hrem, hbit, ← div_two_pow_succ] at hkeep hsub
  rw [hbit] at hshifted hbound
  have hden : Limbs.toNat ⟨0, denominator⟩ = denominator.toNat := by
    rw [Limbs.toNat, UInt64.toNat_zero, Nat.zero_mul, Nat.zero_add]
  have hdLt := denominator.toNat_lt
  have hguard : ¬ ((0 : UInt64) > 1 ∨ (0 : UInt64) &&& 0x8000000000000000 ≠ 0) := by decide
  unfold divStep
  rw [if_neg hguard]
  dsimp only
  generalize Limbs.mk (((0 : UInt64) <<< 1) ||| (lo >>> 63))
    ((lo <<< 1) ||| numeratorBit numerator position) = shifted at hshifted ⊢
  by_cases hlt : shifted.toNat < denominator.toNat
  · -- the divisor does not go in: the shifted remainder is kept
    obtain ⟨hquot, hmod⟩ := hkeep (by omega)
    have hcompare := u128Compare_neg_iff.mpr (hden.symm ▸ hlt)
    obtain ⟨hhi, hlo⟩ := hi_of_toNat_lt (hlt.trans hdLt)
    rw [if_neg (by omega)]
    refine Or.inl ⟨_, rfl, hhi, ?_, ?_⟩
    · rw [hlo, hshifted, hmod]
    · rw [hresult, hquot, Nat.pow_succ]
      ring
  · -- the divisor goes in once
    obtain ⟨hquot, hmod⟩ := hsub (by omega) (by omega)
    have hcompare := mt u128Compare_neg_iff.mp (hden.symm ▸ hlt)
    obtain ⟨out, hout, houtNat⟩ := u128SubChecked_eq (hden.symm ▸ not_lt.mp hlt)
    rw [hden] at houtNat
    obtain ⟨hhi, hlo⟩ := hi_of_toNat_lt (show out.toNat < 2 ^ 64 by omega)
    rw [if_pos (by omega), hout]
    dsimp only
    by_cases hhigh : position ≥ 64
    · -- a quotient bit at 64 or above
      rw [if_pos hhigh]
      refine Or.inr ⟨rfl, ?_⟩
      have hone : 1 ≤ numerator.toNat / (2 ^ position * denominator.toNat) := by
        rw [← Nat.div_div_eq_div_mul, hquot]
        omega
      have hmul := (Nat.one_le_div_iff (Nat.mul_pos (Nat.two_pow_pos _) hd)).mp hone
      have hpow : 2 ^ 64 ≤ 2 ^ position := Nat.pow_le_pow_right (by decide) hhigh
      exact (Nat.le_div_iff_mul_le hd).mpr ((Nat.mul_le_mul_right _ hpow).trans hmul)
    · rw [if_neg hhigh]
      refine Or.inl ⟨_, rfl, hhi, ?_, ?_⟩
      · rw [hlo, houtNat, hshifted, hmod]
      · rw [toNat_or_bit (not_le.mp hhigh) hresult, hquot]

/-- **The whole loop** ends with the quotient and the remainder, or finds that the quotient does
not fit. -/
theorem divLoop_cases {numerator : Limbs} {denominator : UInt64} {position : Nat} {state : DivState}
    (hd : 0 < denominator.toNat) (hposition : position ≤ 128)
    (h : Divided numerator denominator position state) :
    (∃ last, divLoop numerator denominator position state = some last
        ∧ Divided numerator denominator 0 last)
      ∨ (divLoop numerator denominator position state = none
        ∧ 2 ^ 64 ≤ numerator.toNat / denominator.toNat) := by
  induction position generalizing state with
  | zero => exact Or.inl ⟨state, rfl, h⟩
  | succ position ih =>
      unfold divLoop
      rcases divStep_cases hd (by omega) h with hgo | hstop
      · obtain ⟨state', hstep, hdivided⟩ := hgo
        rw [hstep, Option.bind_some]
        exact ih (by omega) hdivided
      · rw [hstop.1, Option.bind_none]
        exact Or.inr ⟨rfl, hstop.2⟩

/-- Nothing is divided before the first pass. -/
theorem divided_start (numerator : Limbs) (denominator : UInt64) :
    Divided numerator denominator 128 ⟨⟨0, 0⟩, 0⟩ := by
  have hsmall : numerator.toNat / 2 ^ 128 = 0 := by
    have hhi := numerator.hi.toNat_lt
    have hlo := numerator.lo.toNat_lt
    refine Nat.div_eq_of_lt ?_
    unfold Limbs.toNat
    omega
  refine ⟨rfl, ?_, ?_⟩
  · rw [hsmall, Nat.zero_mod]
    rfl
  · rw [hsmall, Nat.zero_div, Nat.zero_mul]
    rfl

/-- **Two-limb division is exact.** It succeeds exactly when the divisor is nonzero and the
quotient is a word, and then returns the quotient and the remainder. -/
theorem u128DivU64_exact (numeratorHi numeratorLo denominator : UInt64) :
    ((u128DivU64 numeratorHi numeratorLo denominator).isSome = true
        ↔ denominator ≠ 0
          ∧ (numeratorHi.toNat * 2 ^ 64 + numeratorLo.toNat) / denominator.toNat < 2 ^ 64)
      ∧ ∀ quotient remainder,
          u128DivU64 numeratorHi numeratorLo denominator = some (quotient, remainder) →
          quotient.toNat = (numeratorHi.toNat * 2 ^ 64 + numeratorLo.toNat) / denominator.toNat
            ∧ remainder.toNat
              = (numeratorHi.toNat * 2 ^ 64 + numeratorLo.toNat) % denominator.toNat := by
  by_cases hzero : denominator = 0
  · unfold u128DivU64
    rw [if_pos hzero]
    simp [hzero]
  have hd : 0 < denominator.toNat := by
    refine Nat.pos_of_ne_zero fun h => hzero ?_
    rwa [← UInt64.toNat_inj]
  unfold u128DivU64
  rw [if_neg hzero]
  change (_ ↔ _ ∧ Limbs.toNat ⟨numeratorHi, numeratorLo⟩ / _ < _) ∧ _
  rcases divLoop_cases hd (le_refl 128) (divided_start ⟨numeratorHi, numeratorLo⟩ denominator)
    with hgo | hstop
  · obtain ⟨last, hloop, hhigh, hrem, hresult⟩ := hgo
    rw [Nat.pow_zero, Nat.div_one] at hrem hresult
    rw [Nat.mul_one] at hresult
    have hword := last.result.toNat_lt
    rw [hresult] at hword
    rw [hloop]
    dsimp only
    rw [hhigh, if_neg (by simp)]
    refine ⟨by simp [hzero, hword], fun quotient remainder h => ?_⟩
    rw [Option.some.injEq, Prod.mk.injEq] at h
    obtain ⟨rfl, rfl⟩ := h
    exact ⟨hresult, hrem⟩
  · obtain ⟨hloop, hbig⟩ := hstop
    rw [hloop]
    refine ⟨⟨fun h => (by cases h), fun h => absurd h.2 (not_lt.mpr hbig)⟩, ?_⟩
    intro quotient remainder h
    cases h

/-- A division whose shifted remainder carries out of the low limb. -/
theorem u128DivU64_exact_carry :
    (1 : UInt64).toNat
        = ((1 : UInt64).toNat * 2 ^ 64 + (5 : UInt64).toNat) / (0x8000000000000003 : UInt64).toNat
      ∧ (0x8000000000000002 : UInt64).toNat
        = ((1 : UInt64).toNat * 2 ^ 64 + (5 : UInt64).toNat) % (0x8000000000000003 : UInt64).toNat :=
  (u128DivU64_exact 1 5 0x8000000000000003).2 1 0x8000000000000002 (by decide +kernel)

end AttestedCompute.Sqrt218
