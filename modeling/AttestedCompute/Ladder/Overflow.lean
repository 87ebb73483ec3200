import AttestedCompute.Ladder.Partition

/-!
# Signed overflow in the Turing arithmetic

The flank weights are sums of at most 512 steps and the targets are at most `2 ^ 53`, so
neither can overflow. The enclosures of `S(t)` and of the common term come from the packet
as they are, with no bound on them: the numerators of the two quotients are the only
`int64_t` results that may not fit.
-/

namespace AttestedCompute.Ladder

open Fallible (bind_ok ok_bind Avoids avoids_ok avoids_error avoids_bind avoids_foldlM)

/-- `x` is a value of `int64_t`. -/
def Fits (x : Int) : Prop := -2 ^ 63 ≤ x ∧ x < 2 ^ 63

instance (x : Int) : Decidable (Fits x) := inferInstanceAs (Decidable (_ ∧ _))

/-- The exact weight of the sign changes of a flank. -/
def changeSum (bitmap : Bytes) (samples : Nat) (weight : Nat → Nat) : Nat :=
  ((List.range (samples - 1)).map fun index =>
    if bitAt bitmap index ≠ bitAt bitmap (index + 1) then weight index else 0).sum

/-- The steps of the left flank, `-left_weight` in exact arithmetic. -/
def leftSteps (packet : Bytes) : Nat := changeSum (leftBitmap packet) flankSamples fun index => index

/-- The steps of the right flank, `right_weight` in exact arithmetic. -/
def rightSteps (packet : Bytes) : Nat :=
  changeSum (rightBitmap packet) flankSamples fun index => flankSpanSteps - (index + 1)

/-- The outer ends of the exact numerators of a packet fit in 64 bits. -/
structure TuringFits (packet : Bytes) : Prop where
  lowerLo : -2 ^ 63 ≤ -(readEnclosure packet 72).hi + 42 * (leftSteps packet : Int)
    + (readEnclosure packet 88).lo
  lowerHi : -(readEnclosure packet 72).lo + 42 * (leftSteps packet : Int)
    + (readEnclosure packet 88).hi < 2 ^ 63
  upperLo : -2 ^ 63 ≤ (readEnclosure packet 104).lo - 42 * (rightSteps packet : Int)
    + (readEnclosure packet 120).lo
  upperHi : (readEnclosure packet 104).hi - 42 * (rightSteps packet : Int)
    + (readEnclosure packet 120).hi < 2 ^ 63

/-- The condition on one call. -/
def CallFits (state : LadderState) : Call → Prop
  | .step packet _ => checkStructure state packet = .ok () → TuringFits packet
  | .finish => True

/-- Every call of a sequence meets the condition in the state it is made in. -/
def CallsFit : LadderState → List Call → Prop
  | _, [] => True
  | state, call :: rest =>
      CallFits state call ∧ ∀ state', call.apply state = some state' → CallsFit state' rest

/-! ## One operation -/

theorem int64_fits {x : Int} (h : Fits x) : int64 x = .ok x := if_pos h

theorem int64_not_fits {x : Int} (h : ¬ Fits x) : int64 x = .error .signedOverflow := if_neg h

/-- A computation that is not undefined. -/
abbrev Defined {α : Type} (x : Except Fault α) : Prop := Avoids .signedOverflow x

theorem defined_rejectIf (bad : Bool) (e : LadderError) : Defined (rejectIf bad e) := by
  unfold rejectIf
  split
  · exact avoids_error (by simp)
  · exact avoids_ok _ ()

/-- What follows a reject matters only where it does not reject. -/
theorem defined_rejectIf_bind {β : Type} {bad : Bool} {e : LadderError} {f : Unit → Except Fault β}
    (hf : bad = false → Defined (f ())) : Defined (rejectIf bad e >>= f) :=
  avoids_bind (defined_rejectIf bad e) fun _ hok => hf (rejectIf_ok.mp hok)

/-- **No check before the arithmetic is undefined.** -/
theorem defined_checkStructure (state : LadderState) (packet : Bytes) :
    Defined (checkStructure state packet) := by
  have hcell : ∀ previousCell index, Defined (checkStationaryCell packet previousCell index) := by
    intro previousCell index
    unfold checkStationaryCell
    exact defined_rejectIf_bind fun _ => defined_rejectIf_bind fun _ =>
      defined_rejectIf_bind fun _ => avoids_ok _ _
  have hheader : Defined (checkHeader state packet) := by
    unfold checkHeader
    exact defined_rejectIf_bind fun _ => defined_rejectIf_bind fun _ =>
      defined_rejectIf_bind fun _ => defined_rejectIf_bind fun _ => defined_rejectIf_bind fun _ =>
      defined_rejectIf_bind fun _ => defined_rejectIf _ _
  have hstationary : Defined (checkStationary packet) :=
    avoids_bind (avoids_foldlM _ hcell _) fun _ _ => avoids_ok _ _
  have hpadding : Defined (checkPadding packet) := by
    unfold checkPadding
    exact defined_rejectIf_bind fun _ => defined_rejectIf_bind fun _ => defined_rejectIf _ _
  have hboundary : Defined (checkBoundary packet) := by
    unfold checkBoundary
    exact defined_rejectIf_bind fun _ => defined_rejectIf _ _
  unfold checkStructure
  refine avoids_bind hheader fun _ _ => avoids_bind (defined_rejectIf _ _) fun _ _ => ?_
  refine avoids_bind hstationary fun _ _ => avoids_bind hpadding fun _ _ => ?_
  exact avoids_bind (defined_rejectIf _ _) fun _ _ => avoids_bind hboundary fun _ _ =>
    defined_rejectIf _ _

/-! ## The flank weights -/

theorem foldlM_changes {p : Nat → Prop} [DecidablePred p] {weight : Nat → Nat} (xs : List Nat)
    {total : Nat} (h : total + (xs.map fun index => if p index then weight index else 0).sum < 2 ^ 63) :
    xs.foldlM (fun (total : Int) index =>
        if p index then int64 (total + (weight index : Nat)) else pure total) (total : Int)
      = .ok ((total + (xs.map fun index => if p index then weight index else 0).sum : Nat) : Int) := by
  induction xs generalizing total with
  | nil => rfl
  | cons index rest ih =>
      rw [List.map_cons, List.sum_cons] at h ⊢
      rw [List.foldlM_cons]
      by_cases hp : p index
      · rw [if_pos hp] at h ⊢
        rw [if_pos hp, int64_fits ⟨by omega, by omega⟩, ← Nat.cast_add, ← Nat.add_assoc]
        exact ih (by omega)
      · rw [if_neg hp] at h ⊢
        rw [if_neg hp, Nat.zero_add]
        exact ih (by omega)

theorem changeSum_le (bitmap : Bytes) (samples : Nat) {weight : Nat → Nat} {bound : Nat}
    (h : ∀ index, index < samples - 1 → weight index ≤ bound) :
    changeSum bitmap samples weight ≤ (samples - 1) * bound := by
  have hsum := List.sum_le_card_nsmul ((List.range (samples - 1)).map fun index =>
    if bitAt bitmap index ≠ bitAt bitmap (index + 1) then weight index else 0) bound (by
      intro x hx
      obtain ⟨index, hindex, rfl⟩ := List.mem_map.mp hx
      split
      · exact h index (List.mem_range.mp hindex)
      · exact Nat.zero_le bound)
  rwa [List.length_map, List.length_range, smul_eq_mul] at hsum

theorem leftSteps_le (packet : Bytes) : leftSteps packet ≤ 262144 :=
  (@changeSum_le _ _ _ 512 fun index h => by simp only [flankSamples] at h; omega).trans
    (by decide)

theorem rightSteps_le (packet : Bytes) : rightSteps packet ≤ 262144 :=
  (@changeSum_le _ _ _ 512 fun index _ => by simp only [flankSpanSteps]; omega).trans
    (by decide)

/-- **The weights never overflow.** -/
theorem flankWeights_eq (packet : Bytes) :
    flankWeights packet = .ok (-(leftSteps packet : Int), (rightSteps packet : Int)) := by
  have hleftLe := leftSteps_le packet
  have hrightLe := rightSteps_le packet
  have hleft : leftWeight (leftBitmap packet) flankSamples = .ok (-(leftSteps packet : Int)) := by
    have hfold := @foldlM_changes
      (fun index => bitAt (leftBitmap packet) index ≠ bitAt (leftBitmap packet) (index + 1)) _
      (fun index => index) (List.range (flankSamples - 1)) 0
    rw [Nat.zero_add] at hfold
    unfold leftWeight
    refine bind_ok.mpr ⟨_, hfold ?_, int64_fits ?_⟩
    · exact Nat.lt_of_le_of_lt hleftLe (by decide)
    · show Fits (-(leftSteps packet : Int))
      exact ⟨by omega, by omega⟩
  have hright : rightWeight (rightBitmap packet) flankSamples flankSpanSteps
      = .ok (rightSteps packet : Int) := by
    have hfold := @foldlM_changes
      (fun index => bitAt (rightBitmap packet) index ≠ bitAt (rightBitmap packet) (index + 1)) _
      (fun index => flankSpanSteps - (index + 1)) (List.range (flankSamples - 1)) 0
    rw [Nat.zero_add] at hfold
    exact hfold (Nat.lt_of_le_of_lt hrightLe (by decide))
  have hsigns : decide (-(leftSteps packet : Int) > 0 ∨ (rightSteps packet : Int) < 0) = false := by
    rw [decide_eq_false_iff_not]
    omega
  unfold flankWeights
  refine bind_ok.mpr ⟨_, hleft, bind_ok.mpr ⟨_, hright, ?_⟩⟩
  exact bind_ok.mpr ⟨(), rejectIf_ok.mpr hsigns, rfl⟩

/-! ## The numerators and the quotients -/

/-- A decoded word is a value of `int64_t`. -/
theorem fits_readBeI64 (packet : Bytes) (i : Nat) : Fits (readBeI64 packet i) := by
  have hlt := (readBe64 packet i).toNat_lt
  rw [readBeI64_eq]
  unfold toInt64
  split
  · exact ⟨by omega, by omega⟩
  · exact ⟨by omega, by omega⟩

/-- The ordering the interval check establishes. -/
structure Ordered (packet : Bytes) : Prop where
  sLower : (readEnclosure packet 72).lo ≤ (readEnclosure packet 72).hi
  commonLower : (readEnclosure packet 88).lo ≤ (readEnclosure packet 88).hi
  sUpper : (readEnclosure packet 104).lo ≤ (readEnclosure packet 104).hi
  commonUpper : (readEnclosure packet 120).lo ≤ (readEnclosure packet 120).hi
  sLowerNonneg : 0 ≤ (readEnclosure packet 72).lo
  sUpperNonneg : 0 ≤ (readEnclosure packet 104).lo

theorem checkIntervals_ok {packet : Bytes} (h : checkIntervals packet = .ok ()) :
    Ordered packet := by
  unfold checkIntervals at h
  rw [rejectIf_ok, decide_eq_false_iff_not] at h
  simp only [not_or, not_lt] at h
  obtain ⟨h1, h2, h3, h4, h5, h6⟩ := h
  exact ⟨h1, h2, h3, h4, h5, h6⟩

/-- The first two operations of a lower numerator always fit. -/
theorem lowerNumerator_eq {sBound integral common : Int} (hs : 0 ≤ sBound) (hs' : sBound < 2 ^ 63)
    (hi : -2 ^ 24 ≤ integral) (hi' : integral ≤ 0) :
    lowerNumerator sBound integral common = int64 (-sBound - integral + common) := by
  unfold lowerNumerator
  rw [int64_fits ⟨by omega, by omega⟩]
  show (int64 (-sBound - integral) >>= fun shifted => int64 (shifted + common)) = _
  rw [int64_fits ⟨by omega, by omega⟩]
  rfl

theorem upperNumerator_eq {sBound integral common : Int} (hs : 0 ≤ sBound) (hs' : sBound < 2 ^ 63)
    (hi : 0 ≤ integral) (hi' : integral ≤ 2 ^ 24) :
    upperNumerator sBound integral common = int64 (sBound - integral + common) := by
  unfold upperNumerator
  rw [int64_fits ⟨by omega, by omega⟩]
  rfl

theorem tdiv_flankWidth_bound {numerator : Int} (h : Fits numerator) :
    -2 ^ 59 ≤ numerator.tdiv flankWidth ∧ numerator.tdiv flankWidth ≤ 2 ^ 59 := by
  obtain ⟨hlo, hhi⟩ := h
  have habs : (numerator.tdiv flankWidth).natAbs = numerator.natAbs / 21 :=
    Int.natAbs_tdiv numerator flankWidth
  omega

/-- A quotient of a numerator that fits is far from the ends. -/
theorem exists_floorDiv {numerator : Int} (h : Fits numerator) :
    ∃ quotient, floorDiv numerator flankWidth = .ok quotient ∧ quotient ≤ 2 ^ 59 := by
  obtain ⟨hlo, hhi⟩ := tdiv_flankWidth_bound h
  unfold floorDiv
  dsimp only
  split
  · exact ⟨_, int64_fits ⟨by omega, by omega⟩, by omega⟩
  · exact ⟨_, rfl, hhi⟩

theorem exists_ceilDiv {numerator : Int} (h : Fits numerator) :
    ∃ quotient, ceilDiv numerator flankWidth = .ok quotient := by
  obtain ⟨hlo, hhi⟩ := tdiv_flankWidth_bound h
  unfold ceilDiv
  dsimp only
  split
  · exact ⟨_, int64_fits ⟨by omega, by omega⟩⟩
  · exact ⟨_, rfl⟩

/-- The exact lower numerator at one end. -/
def exactLower (packet : Bytes) (sBound common : Int) : Int :=
  -sBound + 42 * (leftSteps packet : Int) + common

/-- The exact upper numerator at one end. -/
def exactUpper (packet : Bytes) (sBound common : Int) : Int :=
  sBound - 42 * (rightSteps packet : Int) + common

/-- Four numerators, computed in the order of the source. -/
theorem turingQuotients_eq {packet : Bytes} (hordered : Ordered packet) :
    turingQuotients packet (-(leftSteps packet : Int)) (rightSteps packet : Int) = (do
      let lowerNumLo ← int64
        (exactLower packet (readEnclosure packet 72).hi (readEnclosure packet 88).lo)
      let lowerNumHi ← int64
        (exactLower packet (readEnclosure packet 72).lo (readEnclosure packet 88).hi)
      let upperNumLo ← int64
        (exactUpper packet (readEnclosure packet 104).lo (readEnclosure packet 120).lo)
      let upperNumHi ← int64
        (exactUpper packet (readEnclosure packet 104).hi (readEnclosure packet 120).hi)
      let lowerLo ← floorDiv lowerNumLo flankWidth
      let lowerHi ← ceilDiv lowerNumHi flankWidth
      let upperLo ← floorDiv upperNumLo flankWidth
      let upperHi ← ceilDiv upperNumHi flankWidth
      pure (⟨lowerLo, lowerHi⟩, ⟨upperLo, upperHi⟩)) := by
  have hleft := leftSteps_le packet
  have hright := rightSteps_le packet
  obtain ⟨hsl, -, hsu, -, hsl0, hsu0⟩ := hordered
  have hsl' : (readEnclosure packet 72).hi < 2 ^ 63 := (fits_readBeI64 packet 80).2
  have hsu' : (readEnclosure packet 104).hi < 2 ^ 63 := (fits_readBeI64 packet 112).2
  have hleftIntegral : int64 (-(leftSteps packet : Int) * (deltaNumerator * 2))
      = .ok (-(42 * (leftSteps packet : Int))) := by
    unfold deltaNumerator
    rw [int64_fits ⟨by omega, by omega⟩]
    exact congrArg Except.ok (by omega)
  have hrightIntegral : int64 ((rightSteps packet : Int) * (deltaNumerator * 2))
      = .ok (42 * (rightSteps packet : Int)) := by
    unfold deltaNumerator
    rw [int64_fits ⟨by omega, by omega⟩]
    exact congrArg Except.ok (by omega)
  unfold turingQuotients
  dsimp only
  rw [hleftIntegral, hrightIntegral]
  simp only [bind, Except.bind]
  rw [lowerNumerator_eq (by omega) hsl' (by omega) (by omega),
    lowerNumerator_eq hsl0 (by omega) (by omega) (by omega),
    upperNumerator_eq hsu0 (by omega) (by omega) (by omega),
    upperNumerator_eq (by omega) hsu' (by omega) (by omega), sub_neg_eq_add, sub_neg_eq_add]
  rfl

/-! ## The targets -/

theorem defined_int64_bind {β : Type} {x : Int} {f : Int → Except Fault β} :
    Defined (int64 x >>= f) ↔ Fits x ∧ Defined (f x) := by
  by_cases h : Fits x
  · rw [int64_fits h]
    exact (and_iff_right h).symm
  · rw [int64_not_fits h]
    refine ⟨fun hdefined => absurd rfl hdefined, fun hfits => absurd hfits.1 h⟩

/-- A count below the limit, or one that a packet of slots wraps past zero, as `int64_t`. -/
theorem toInt64_lowerCount {header : PacketHeader}
    (hclosure : header.lowerCount + header.slots = header.upperCount)
    (hslots : header.slots.toNat < 2 ^ 32) (hlimit : header.upperCount.toNat ≤ 2 ^ 53) :
    -2 ^ 32 ≤ toInt64 header.lowerCount ∧ toInt64 header.lowerCount ≤ 2 ^ 53 := by
  have hsum := congrArg UInt64.toNat hclosure
  rw [UInt64.toNat_add] at hsum
  have hlt := header.lowerCount.toNat_lt
  unfold toInt64
  split
  · exact ⟨by omega, by omega⟩
  · exact ⟨by omega, by omega⟩

/-- **The target arithmetic never overflows.** -/
theorem defined_checkTargets {header : PacketHeader} (lower : Enclosure) {upper : Enclosure}
    (hclosure : header.lowerCount + header.slots = header.upperCount)
    (hslots : header.slots.toNat < 2 ^ 32) (hupper : upper.lo ≤ 2 ^ 59) :
    Defined (checkTargets header lower upper) := by
  unfold checkTargets scale
  refine defined_rejectIf_bind fun hlimit => ?_
  rw [decide_eq_false_iff_not] at hlimit
  have hcount : header.upperCount.toNat ≤ 2 ^ 53 := UInt64.le_iff_toNat_le.mp (UInt64.not_lt.mp hlimit)
  obtain ⟨hlo, hhi⟩ := toInt64_lowerCount hclosure hslots hcount
  have hupperCount : toInt64 header.upperCount = (header.upperCount.toNat : Int) :=
    if_pos (by omega)
  rw [hupperCount]
  refine defined_int64_bind.mpr ⟨⟨by omega, by omega⟩, ?_⟩
  refine defined_int64_bind.mpr ⟨⟨by omega, by omega⟩, ?_⟩
  refine defined_int64_bind.mpr ⟨⟨by omega, by omega⟩, ?_⟩
  refine defined_int64_bind.mpr ⟨⟨by omega, by omega⟩, defined_rejectIf_bind fun _ => ?_⟩
  refine defined_int64_bind.mpr ⟨⟨by omega, by omega⟩, defined_rejectIf_bind fun _ => ?_⟩
  refine defined_int64_bind.mpr ⟨⟨by omega, by omega⟩, defined_rejectIf_bind fun hfloor => ?_⟩
  -- at the limit `(floorTarget + 1) * scale` is `2 ^ 63`, but the floor check has refused by then
  rw [decide_eq_false_iff_not, not_not] at hfloor
  refine defined_int64_bind.mpr ⟨⟨by omega, by omega⟩, ?_⟩
  exact defined_int64_bind.mpr ⟨⟨by omega, by omega⟩, defined_rejectIf _ _⟩

/-! ## The condition is exact -/

theorem turingFits_iff {packet : Bytes} (hordered : Ordered packet) :
    TuringFits packet
      ↔ Fits (exactLower packet (readEnclosure packet 72).hi (readEnclosure packet 88).lo)
        ∧ Fits (exactLower packet (readEnclosure packet 72).lo (readEnclosure packet 88).hi)
        ∧ Fits (exactUpper packet (readEnclosure packet 104).lo (readEnclosure packet 120).lo)
        ∧ Fits (exactUpper packet (readEnclosure packet 104).hi (readEnclosure packet 120).hi) := by
  obtain ⟨hsl, hcl, hsu, hcu, -, -⟩ := hordered
  unfold exactLower exactUpper
  refine ⟨fun h => ?_, fun h => ⟨h.1.1, h.2.1.2, h.2.2.1.1, h.2.2.2.2⟩⟩
  obtain ⟨h1, h2, h3, h4⟩ := h
  exact ⟨⟨h1, by omega⟩, ⟨by omega, h2⟩, ⟨h3, by omega⟩, ⟨by omega, h4⟩⟩

/-- The arithmetic of an ordered packet with closed slots. -/
theorem defined_checkArithmetic_iff {packet : Bytes} (hordered : Ordered packet)
    (hclosure : (readHeader packet).lowerCount + (readHeader packet).slots
      = (readHeader packet).upperCount) :
    Defined (checkArithmetic packet) ↔ TuringFits packet := by
  have hslots : (readHeader packet).slots.toNat < 2 ^ 32 := by
    show (readBe32 packet 32).toUInt64.toNat < 2 ^ 32
    rw [UInt32.toNat_toUInt64]
    exact (readBe32 packet 32).toNat_lt
  unfold checkArithmetic
  rw [flankWeights_eq, ok_bind]
  dsimp only
  rw [turingQuotients_eq hordered, turingFits_iff hordered]
  simp only [bind_assoc, defined_int64_bind]
  refine and_congr_right fun h1 => and_congr_right fun h2 => and_congr_right fun h3 =>
    and_iff_left_of_imp fun h4 => ?_
  obtain ⟨_, hlowerLo, -⟩ := exists_floorDiv h1
  obtain ⟨_, hlowerHi⟩ := exists_ceilDiv h2
  obtain ⟨_, hupperLo, hbound⟩ := exists_floorDiv h3
  obtain ⟨_, hupperHi⟩ := exists_ceilDiv h4
  rw [hlowerLo, hlowerHi, hupperLo, hupperHi]
  exact defined_checkTargets _ hclosure hslots hbound

theorem checkStructure_ok {state : LadderState} {packet : Bytes}
    (h : checkStructure state packet = .ok ()) :
    Ordered packet ∧ (readHeader packet).lowerCount + (readHeader packet).slots
      = (readHeader packet).upperCount := by
  simp only [checkStructure, bind_ok] at h
  obtain ⟨_, hheader, _, -, _, -, _, -, _, -, _, -, hintervals⟩ := h
  exact ⟨checkIntervals_ok hintervals, (checkHeader_ok hheader).2.2.2⟩

/-- **One packet.** -/
theorem defined_checkPacket_iff (state : LadderState) (packet : Bytes) :
    Defined (checkPacket state packet)
      ↔ (checkStructure state packet = .ok () → TuringFits packet) := by
  rw [checkPacket_eq]
  cases hstructure : checkStructure state packet with
  | error e =>
      have hdefined := defined_checkStructure state packet
      rw [hstructure] at hdefined
      refine ⟨fun _ h => (by cases h), fun _ => ?_⟩
      intro h
      exact hdefined (congrArg Except.error (Except.error.inj h))
  | ok u =>
      obtain ⟨hordered, hclosure⟩ := checkStructure_ok hstructure
      rw [← defined_checkArithmetic_iff hordered hclosure, ok_bind]
      exact ⟨fun h _ => h, fun h => h rfl⟩

theorem apply_isSome_iff (state : LadderState) (call : Call) :
    (call.apply state).isSome = true ↔ CallFits state call := by
  cases call with
  | step packet out =>
      rw [apply_step_isSome]
      exact defined_checkPacket_iff state packet
  | finish => exact ⟨fun _ => trivial, fun _ => rfl⟩

/-- A sequence of calls has an outcome exactly when every call meets the condition. -/
theorem runCalls_isSome_iff (state : LadderState) (calls : List Call) :
    (runCalls state calls).isSome = true ↔ CallsFit state calls := by
  induction calls generalizing state with
  | nil => exact ⟨fun _ => trivial, fun _ => rfl⟩
  | cons call rest ih =>
      unfold runCalls CallsFit
      rw [← apply_isSome_iff]
      cases call.apply state with
      | none => exact ⟨fun h => (by cases h), fun h => (by cases h.1)⟩
      | some state' =>
          rw [Option.bind_some, ih state']
          refine ⟨fun h => ⟨rfl, fun s hs => ?_⟩, fun h => h.2 state' rfl⟩
          obtain rfl := Option.some.inj hs
          exact h

/--
**Signed overflow.** In a state reached after a start, a packet overflows no signed
operation exactly when one of the checks before the arithmetic refuses it or the outer ends
of its four numerators fit in 64 bits; and a whole sequence of calls is free of overflow
exactly when every call of it is.
-/
theorem ladder_overflow_iff (firstBlock firstCount : UInt64) (blocksPerGroup : UInt32)
    (commitPackets : Bool) :
    (∀ calls state, runCalls (ladderStart firstBlock firstCount blocksPerGroup commitPackets) calls
        = some state → ∀ packet out,
      (ladderStep state packet out).1 ≠ .error .signedOverflow
        ↔ (checkStructure state packet = .ok () → TuringFits packet))
    ∧ ∀ calls, (runCalls (ladderStart firstBlock firstCount blocksPerGroup commitPackets)
        calls).isSome = true
      ↔ CallsFit (ladderStart firstBlock firstCount blocksPerGroup commitPackets) calls := by
  refine ⟨fun calls state _ packet out => ?_, fun calls => runCalls_isSome_iff _ calls⟩
  rw [ladderStep_fst]
  exact defined_checkPacket_iff state packet

/-- A packet with blank bitmaps whose left common term is the least value of `int64_t`. -/
def widePacket : Bytes :=
  packetMagic ++ writeBe64 0 ++ writeBe64 1 ++ writeBe64 3 ++ [0, 0, 0, 2, 0, 0, 0, 1]
    ++ List.replicate 32 0 ++ writeBe64 0 ++ writeBe64 1 ++ writeBe64 0x8000000000000000
    ++ writeBe64 0x8000000000000000 ++ List.replicate 32 0 ++ List.replicate 3203 0

theorem mainBitmap_wide : mainBitmap widePacket = List.replicate 3203 0 :=
  List.drop_left' (by simp [packetMagic, packetHeaderBytes])

theorem leftBitmap_wide : leftBitmap widePacket = List.replicate 130 0 := by
  rw [leftBitmap, mainBitmap_wide, List.drop_replicate]
  rfl

theorem rightBitmap_wide : rightBitmap widePacket = List.replicate 65 0 := by
  rw [rightBitmap, leftBitmap_wide, List.drop_replicate]
  rfl

theorem checkStructure_wide : checkStructure (ladderStart 0 1 1 false) widePacket = .ok () :=
  checkStructure_quiet mainBitmap_wide leftBitmap_wide rightBitmap_wide (by decide +kernel)
    (by decide +kernel) (by decide +kernel) (by decide +kernel) (by decide +kernel)

theorem changeSum_blank (n samples : Nat) (weight : Nat → Nat) :
    changeSum (List.replicate n 0) samples weight = 0 := by
  unfold changeSum
  simp only [bitAt_blank, ne_eq, not_true_eq_false, if_false]
  simp

theorem leftSteps_blank {packet : Bytes} {n : Nat} (h : leftBitmap packet = List.replicate n 0) :
    leftSteps packet = 0 := by
  rw [leftSteps, h, changeSum_blank]

theorem rightSteps_blank {packet : Bytes} {n : Nat} (h : rightBitmap packet = List.replicate n 0) :
    rightSteps packet = 0 := by
  rw [rightSteps, h, changeSum_blank]

/-- **No bound guards the enclosures.** A fresh checker evaluates `-1 - 0 - 2 ^ 63`. -/
theorem ladder_overflow_wide :
    Reachable (ladderStart 0 1 1 false)
      ∧ (ladderStep (ladderStart 0 1 1 false) widePacket blankOut).1 = .error .signedOverflow := by
  refine ⟨reachable_start 0 1 1 false, ?_⟩
  rw [ladderStep_fst]
  by_contra hdefined
  have hfits := (defined_checkPacket_iff _ _).mp hdefined checkStructure_wide
  have hhi : (readEnclosure widePacket 72).hi = 1 := by decide +kernel
  have hlo : (readEnclosure widePacket 88).lo = -2 ^ 63 := by decide +kernel
  have hbound := hfits.lowerLo
  rw [leftSteps_blank leftBitmap_wide, hhi, hlo] at hbound
  exact absurd hbound (by decide)

theorem ladder_overflow_iff_first :
    (ladderStep (ladderStart 0 1 1 false) (quietPacket 0 1 3 0 43008) blankOut).1
      ≠ .error .signedOverflow := by
  refine ((ladder_overflow_iff 0 1 1 false).1 [] _ rfl _ blankOut).mpr fun _ => ?_
  have hleft := leftSteps_blank (leftBitmap_quiet 0 1 3 0 43008)
  have hright := rightSteps_blank (rightBitmap_quiet 0 1 3 0 43008)
  refine ⟨?_, ?_, ?_, ?_⟩
  · rw [hleft]; decide +kernel
  · rw [hleft]; decide +kernel
  · rw [hright]; decide +kernel
  · rw [hright]; decide +kernel

end AttestedCompute.Ladder
