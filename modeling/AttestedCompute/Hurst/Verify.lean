import AttestedCompute.Hurst.Roots

/-!
# The verify mode of the residual shard

The program sieves the Möbius values of a shard, adds them to four incoming prefix states (the
Mertens sum, the number of squarefree integers and a directed interval around the little Mertens
sum at scale `2^96`) and checks the published inequalities at every row. Each check first compares
cheap products of the state with a floor square root and falls back on squares; the products are
taken in 64 and 128 bits, and only the last comparisons are in unbounded integers.

Everything is as the source computes it, each sum, difference and product through the width it
has there. The sieve is not part of the source, so its values are a parameter, and so is the
estimate that `std::sqrt` gives. The row hashes do not take part in a verdict and are left out.
-/

namespace AttestedCompute.Hurst

/-! ## Constants -/

def kSourceLimit : ℕ := 10000000000000000
def kHurstLower : ℕ := 33
def kLittle211Limit : ℕ := 1000000000000
def kLittleStrongerLower : ℕ := 3
/-- The exclusive upper endpoint of the stronger bound. -/
def kLittleStrongerLimit : ℕ := 7727068587
def kSquarefreeB1Threshold : ℕ := 9243
def kSquarefreeB2Threshold : ℕ := 438429
def kDefaultSegmentSize : UInt64 := 110880000
def kMaximumSegmentSize : ℕ := 2000000000
def kReductionBlockSize : ℕ := 1048576
def kLittleScale : ℤ := 2 ^ 96
def kDensityDenominator : ℤ := 1000000000000000000
def kDensityLower : ℤ := 607927101854026628
def kDensityUpper : ℤ := 607927101854026629

/-! ## Widths -/

/-- A `std::uint64_t` result. -/
abbrev u64 (x : ℤ) : Machine ℤ := Machine.unsigned 64 x

/-- A `std::int64_t` result. -/
abbrev i64 (x : ℤ) : Machine ℤ := Machine.signed 63 x

/-- A `signed __int128` result. -/
abbrev i128 (x : ℤ) : Machine ℤ := Machine.signed 127 x

theorem u64_eq {x : ℤ} (hlo : 0 ≤ x) (hhi : x < 2 ^ 64) : u64 x = pure x :=
  Machine.unsigned_eq hlo hhi

theorem i64_eq {x : ℤ} (hlo : -2 ^ 63 ≤ x) (hhi : x < 2 ^ 63) : i64 x = pure x :=
  Machine.signed_eq hlo hhi

theorem u128_eq {x : ℤ} (hlo : 0 ≤ x) (hhi : x < 2 ^ 128) : u128 x = pure x :=
  Machine.unsigned_eq hlo hhi

theorem i128_eq {x : ℤ} (hlo : -2 ^ 127 ≤ x) (hhi : x < 2 ^ 127) : i128 x = pure x :=
  Machine.signed_eq hlo hhi

/-! ## Options -/

/-- `PrefixDelta`: the four components of a state, or of a change of it. -/
@[ext] structure PrefixDelta where
  mertens : ℤ := 0
  squarefree : ℤ := 0
  littleLower : ℤ := 0
  littleUpper : ℤ := 0
  deriving DecidableEq, Repr

namespace PrefixDelta

instance : Zero PrefixDelta := ⟨{}⟩

instance : Add PrefixDelta where
  add a b :=
    { mertens := a.mertens + b.mertens
      squarefree := a.squarefree + b.squarefree
      littleLower := a.littleLower + b.littleLower
      littleUpper := a.littleUpper + b.littleUpper }

/-- The ranges of the four machine types. -/
structure Fits (s : PrefixDelta) : Prop where
  mertens_ge : -2 ^ 63 ≤ s.mertens
  mertens_lt : s.mertens < 2 ^ 63
  squarefree_nonneg : 0 ≤ s.squarefree
  squarefree_lt : s.squarefree < 2 ^ 64
  lower_ge : -2 ^ 127 ≤ s.littleLower
  lower_lt : s.littleLower < 2 ^ 127
  upper_ge : -2 ^ 127 ≤ s.littleUpper
  upper_lt : s.littleUpper < 2 ^ 127

end PrefixDelta

/-- `Options` with the mode set to verify, in the types of the source. -/
structure Options where
  lower : UInt64 := 1
  upper : UInt64 := 1000000
  segmentSize : UInt64 := kDefaultSegmentSize
  incomingMertens : Int64 := 0
  incomingSquarefree : UInt64 := 0
  incomingLittleLower : BitVec 128 := 0
  incomingLittleUpper : BitVec 128 := 0
  incomingMertensGiven : Bool := false
  incomingSquarefreeGiven : Bool := false
  incomingLittleLowerGiven : Bool := false
  incomingLittleUpperGiven : Bool := false

/-- The state that the options bring in. -/
def Options.incoming (options : Options) : PrefixDelta :=
  { mertens := options.incomingMertens.toInt
    squarefree := options.incomingSquarefree.toNat
    littleLower := options.incomingLittleLower.toInt
    littleUpper := options.incomingLittleUpper.toInt }

/-- A shard that passed the range checks. -/
structure Shard where
  lower : ℕ
  upper : ℕ
  segmentSize : ℕ
  incoming : PrefixDelta
  lower_pos : 1 ≤ lower
  lower_le : lower ≤ upper
  upper_le : upper ≤ kSourceLimit
  segment_pos : 0 < segmentSize
  segment_le : segmentSize ≤ kMaximumSegmentSize
  incoming_fits : incoming.Fits
  incoming_ordered : incoming.littleLower ≤ incoming.littleUpper

/-- The options fit their types, so the state does. -/
theorem Options.incoming_fits (options : Options) : options.incoming.Fits where
  mertens_ge := options.incomingMertens.le_toInt
  mertens_lt := options.incomingMertens.toInt_lt
  squarefree_nonneg := Int.natCast_nonneg _
  squarefree_lt := by
    change ((options.incomingSquarefree.toNat : ℕ) : ℤ) < 2 ^ 64
    exact_mod_cast options.incomingSquarefree.toNat_lt
  lower_ge := options.incomingLittleLower.le_toInt
  lower_lt := options.incomingLittleLower.toInt_lt
  upper_ge := options.incomingLittleUpper.le_toInt
  upper_lt := options.incomingLittleUpper.toInt_lt

/-- The checks at the end of `parse_options`, in verify mode. The value of
`SegmentedMobiusSieveCore::STENCIL_PERIOD` is not in the source. -/
def Options.shard (stencilPeriod : ℕ+) (options : Options) : Except String Shard :=
  if hrange : options.lower.toNat < 1 ∨ options.upper.toNat < options.lower.toNat
      ∨ options.upper.toNat > kSourceLimit then
    .error "the inclusive shard must lie in [1, 10000000000000000]"
  else if hsegment : options.segmentSize.toNat < stencilPeriod
      ∨ options.segmentSize.toNat > kMaximumSegmentSize then
    .error "--segment-size is outside the supported range"
  else if options.lower ≠ 1
      ∧ ¬ (options.incomingMertensGiven ∧ options.incomingSquarefreeGiven
        ∧ options.incomingLittleLowerGiven ∧ options.incomingLittleUpperGiven) then
    .error "a non-root verify shard requires all four incoming prefix states"
  else if hordered : options.incomingLittleLower.toInt > options.incomingLittleUpper.toInt then
    .error "the incoming little-Mertens interval is reversed"
  else
    .ok
      { lower := options.lower.toNat
        upper := options.upper.toNat
        segmentSize := options.segmentSize.toNat
        incoming := options.incoming
        lower_pos := by omega
        lower_le := by omega
        upper_le := by omega
        segment_pos := by
          have := stencilPeriod.pos
          omega
        segment_le := by omega
        incoming_fits := options.incoming_fits
        incoming_ordered := not_lt.mp hordered }

/-! ## One row of the sieve -/

/-- `add_mobius_row` -/
def addMobiusRow (delta : PrefixDelta) (n : ℕ) (mu : ℤ) : Machine PrefixDelta := do
  let mertens ← i64 (delta.mertens + mu)
  let squarefree ← (if mu ≠ 0 then u64 (delta.squarefree + 1) else pure delta.squarefree)
  if n > kLittle211Limit ∨ mu = 0 then
    pure { delta with mertens := mertens, squarefree := squarefree }
  else
    let floorReciprocal ← Machine.quotient kLittleScale (n : ℤ)
    let ceilReciprocal ← i128 (floorReciprocal + if kLittleScale % n ≠ 0 then 1 else 0)
    if mu > 0 then
      let littleLower ← i128 (delta.littleLower + floorReciprocal)
      let littleUpper ← i128 (delta.littleUpper + ceilReciprocal)
      pure ⟨mertens, squarefree, littleLower, littleUpper⟩
    else
      let littleLower ← i128 (delta.littleLower - ceilReciprocal)
      let littleUpper ← i128 (delta.littleUpper - floorReciprocal)
      pure ⟨mertens, squarefree, littleLower, littleUpper⟩

/-- `operator+` -/
def addDelta (left right : PrefixDelta) : Machine PrefixDelta := do
  let mertens ← i64 (left.mertens + right.mertens)
  let squarefree ← u64 (left.squarefree + right.squarefree)
  let littleLower ← i128 (left.littleLower + right.littleLower)
  let littleUpper ← i128 (left.littleUpper + right.littleUpper)
  pure ⟨mertens, squarefree, littleLower, littleUpper⟩

/-! ## The checks of one row -/

/-- `VerificationCounters` -/
structure VerificationCounters where
  hurstExactFallbacks : ℕ := 0
  squarefreeExactFallbacks : ℕ := 0
  little211ExactFallbacks : ℕ := 0
  littleStrongerExactFallbacks : ℕ := 0
  deriving DecidableEq, Repr

/-- `add_counters` -/
def addCounters (destination source : VerificationCounters) : VerificationCounters :=
  { hurstExactFallbacks := destination.hurstExactFallbacks + source.hurstExactFallbacks
    squarefreeExactFallbacks :=
      destination.squarefreeExactFallbacks + source.squarefreeExactFallbacks
    little211ExactFallbacks :=
      destination.little211ExactFallbacks + source.little211ExactFallbacks
    littleStrongerExactFallbacks :=
      destination.littleStrongerExactFallbacks + source.littleStrongerExactFallbacks }

/-- What a check returns, with the counters that it was given a pointer to. -/
structure Verdict where
  accepted : Bool
  counters : VerificationCounters
  deriving DecidableEq, Repr

/-- `absolute_i128` -/
def absoluteI128 (value : ℤ) : Machine ℤ :=
  if value ≥ 0 then u128 value
  else do
    let next ← i128 (value + 1)
    let negated ← i128 (-next)
    let result ← u128 negated
    u128 (result + 1)

/-- The magnitude of an `std::int64_t`. -/
def magnitudeI64 (value : ℤ) : Machine ℤ :=
  if value < 0 then do
    let next ← i64 (value + 1)
    let negated ← i64 (-next)
    let result ← u64 negated
    u64 (result + 1)
  else u64 value

/-- `verify_hurst_value` -/
def verifyHurstValue (n : ℕ) (mertens : ℤ) (floorRoot : UInt64) (counters : VerificationCounters) :
    Machine Verdict := do
  let magnitude ← magnitudeI64 mertens
  let left ← u128 (1000 * magnitude)
  let right ← u128 (571 * (floorRoot.toNat : ℤ))
  if left ≤ right then pure ⟨true, counters⟩
  else do
    let scaled ← u128 (1000000 * magnitude)
    let square ← u128 (scaled * magnitude)
    let coefficient ← u128 (571 * 571)
    let bound ← u128 (coefficient * n)
    pure ⟨decide (square ≤ bound),
      { counters with hurstExactFallbacks := counters.hurstExactFallbacks + 1 }⟩

/-- `verify_squarefree_side`; the squares are of `cpp_int`s. -/
def verifySquarefreeSide (deviation : ℤ) (y : ℕ) (floorRoot : UInt64) (numerator denominator : ℕ)
    (counters : VerificationCounters) : Machine Verdict :=
  if deviation ≤ 0 then pure ⟨true, counters⟩
  else do
    let left ← u128 (deviation * denominator)
    let coefficient ← u128 (numerator * kDensityDenominator)
    let bound ← u128 (coefficient * floorRoot.toNat)
    if left ≤ bound then pure ⟨true, counters⟩
    else pure ⟨decide (left * left ≤ coefficient * coefficient * y),
      { counters with squarefreeExactFallbacks := counters.squarefreeExactFallbacks + 1 }⟩

/-- `verify_squarefree_endpoint` -/
def verifySquarefreeEndpoint (y : ℕ) (squarefreeCount : ℤ) (numerator denominator : ℕ)
    (floorRoot : UInt64) (counters : VerificationCounters) : Machine Verdict := do
  let scaledQ ← i128 (kDensityDenominator * squarefreeCount)
  let lowerMean ← i128 (kDensityLower * y)
  let upperDeviation ← i128 (scaledQ - lowerMean)
  let upperMean ← i128 (kDensityUpper * y)
  let lowerDeviation ← i128 (upperMean - scaledQ)
  let above ← verifySquarefreeSide upperDeviation y floorRoot numerator denominator counters
  if above.accepted then
    verifySquarefreeSide lowerDeviation y floorRoot numerator denominator above.counters
  else pure above

/-- The rounding up of a floor root: itself when its square is the argument. -/
def ceilOfFloor (floorRoot : UInt64) (value : ℤ) : Machine ℤ := do
  let square ← u64 ((floorRoot.toNat : ℤ) * floorRoot.toNat)
  if square = value then pure (floorRoot.toNat : ℤ) else u64 ((floorRoot.toNat : ℤ) + 1)

/-- `half_ceil` -/
def halfCeil (rightEndpoint : ℕ) (halfFloorRoot : UInt64) : Machine ℤ := do
  let next ← u64 ((rightEndpoint : ℤ) + 1)
  ceilOfFloor halfFloorRoot (next / 2)

/-- The first assignment to `cheap` in `verify_little_value`. -/
def cheapUpper (rightEndpoint : ℕ) (upper ceilRoot : ℤ) (stronger : Bool) (halfFloorRoot : UInt64) :
    Machine Bool :=
  if upper > 0 then do
    let factor ← u128 (ceilRoot * if stronger then 2 else 1)
    let multiplier ← (if stronger then pure factor else halfCeil rightEndpoint halfFloorRoot)
    let product ← u128 (upper * multiplier)
    pure (decide (product ≤ kLittleScale))
  else pure true

/-- The second one. -/
def cheapLower (rightEndpoint : ℕ) (lower ceilRoot : ℤ) (stronger : Bool) (halfFloorRoot : UInt64)
    (cheap : Bool) : Machine Bool :=
  if cheap = true ∧ lower < 0 then do
    let magnitude ← absoluteI128 lower
    let multiplier ← (if stronger then u128 (2 * ceilRoot)
      else halfCeil rightEndpoint halfFloorRoot)
    let product ← u128 (magnitude * multiplier)
    pure (decide (product ≤ kLittleScale))
  else pure cheap

/-- `endpoint_safe`, in `cpp_int`s. -/
def endpointSafe (stronger : Bool) (rightEndpoint : ℕ) (value : ℤ) : Machine Bool := do
  let magnitude ← absoluteI128 value
  pure (if stronger then decide (4 * (rightEndpoint : ℤ) * magnitude * magnitude
      ≤ kLittleScale * kLittleScale)
    else decide ((rightEndpoint : ℤ) * magnitude * magnitude ≤ 2 * kLittleScale * kLittleScale))

/-- `verify_little_value` -/
def verifyLittleValue (rightEndpoint : ℕ) (lower upper : ℤ) (stronger : Bool)
    (floorRoot halfFloorRoot : UInt64) (counters : VerificationCounters) : Machine Verdict := do
  let ceilRoot ← ceilOfFloor floorRoot rightEndpoint
  let above ← cheapUpper rightEndpoint upper ceilRoot stronger halfFloorRoot
  let cheap ← cheapLower rightEndpoint lower ceilRoot stronger halfFloorRoot above
  if cheap then pure ⟨true, counters⟩
  else do
    let lowerSafe ← endpointSafe stronger rightEndpoint lower
    let safe ← (if lowerSafe then endpointSafe stronger rightEndpoint upper else pure false)
    pure ⟨safe, if stronger then
        { counters with littleStrongerExactFallbacks := counters.littleStrongerExactFallbacks + 1 }
      else { counters with little211ExactFallbacks := counters.little211ExactFallbacks + 1 }⟩

/-! ## One row -/

/-- The lambda `squarefree_safe`: the value at the row and its limit from the right. -/
def squarefreeSafe (n : ℕ) (squarefreeCount : ℤ) (root rightRoot : UInt64)
    (threshold numerator : ℕ) (counters : VerificationCounters) : Machine Verdict := do
  let inclusive ← (if n ≥ threshold then
      verifySquarefreeEndpoint n squarefreeCount numerator 2000 root counters
    else pure ⟨true, counters⟩)
  if inclusive.accepted then
    if n < threshold ∨ n = kSourceLimit then pure ⟨true, inclusive.counters⟩
    else
      verifySquarefreeEndpoint (n + 1) squarefreeCount numerator 2000 rightRoot inclusive.counters
  else pure inclusive

/-- `squarefree_safe` for the two bounds, the second where the first accepts. -/
def bothSquarefreeSafe (n : ℕ) (squarefreeCount : ℤ) (root rightRoot : UInt64)
    (counters : VerificationCounters) : Machine Verdict := do
  let b1 ← squarefreeSafe n squarefreeCount root rightRoot kSquarefreeB1Threshold 151 counters
  if b1.accepted then
    squarefreeSafe n squarefreeCount root rightRoot kSquarefreeB2Threshold 57 b1.counters
  else pure b1

/-- A check of the little Mertens interval, which moves `half_root`. -/
structure LittleCheck where
  verdict : Verdict
  halfRoot : UInt64

/-- The right endpoint's roots, then `verify_little_value`. -/
def checkLittle (right : ℕ) (state : PrefixDelta) (stronger : Bool) (root halfRoot : UInt64)
    (counters : VerificationCounters) : Machine LittleCheck := do
  let rightRoot ← advanceFloorRoot (UInt64.ofNat right) root
  let half ← advanceFloorRoot (UInt64.ofNat ((right + 1) / 2)) halfRoot
  let verdict ← verifyLittleValue right state.littleLower state.littleUpper stronger rightRoot half
    counters
  pure ⟨verdict, half⟩

/-- What the loop over a block's rows carries, with the atom that failed last. -/
structure Row where
  state : PrefixDelta
  root : UInt64
  halfRoot : UInt64
  counters : VerificationCounters
  failure : Option String := none

/-- One pass of the loop over a block's rows. -/
def verifyRow (n : ℕ) (mu : ℤ) (row : Row) : Machine Row := do
  let root ← advanceFloorRoot (UInt64.ofNat n) row.root
  let state ← addMobiusRow row.state n mu
  let hurst ← (if n ≥ kHurstLower then verifyHurstValue n state.mertens root row.counters
    else pure ⟨true, row.counters⟩)
  if ¬ hurst.accepted then
    pure ⟨state, root, row.halfRoot, hurst.counters, some "mertens-hurst"⟩
  else
  let rightRoot ← (if n < kSourceLimit then advanceFloorRoot (UInt64.ofNat (n + 1)) root
    else pure root)
  let squarefree ← bothSquarefreeSafe n state.squarefree root rightRoot hurst.counters
  if ¬ squarefree.accepted then
    pure ⟨state, root, row.halfRoot, squarefree.counters, some "cdem-squarefree"⟩
  else
  let little ← (if n ≤ kLittle211Limit then
      checkLittle (if n < kLittle211Limit then n + 1 else n) state false root row.halfRoot
        squarefree.counters
    else pure ⟨⟨true, squarefree.counters⟩, row.halfRoot⟩)
  if ¬ little.verdict.accepted then
    pure ⟨state, root, little.halfRoot, little.verdict.counters, some "platt-little-mertens-2-11"⟩
  else
  let stronger ← (if n ≥ kLittleStrongerLower ∧ n < kLittleStrongerLimit then
      checkLittle (n + 1) state true root little.halfRoot little.verdict.counters
    else pure little)
  if ¬ stronger.verdict.accepted then
    pure ⟨state, root, stronger.halfRoot, stronger.verdict.counters,
      some "platt-little-mertens-stronger"⟩
  else pure ⟨state, root, stronger.halfRoot, stronger.verdict.counters, none⟩

/-! ## Blocks, segments and the shard -/

/-- `BlockVerification` -/
structure BlockVerification where
  counters : VerificationCounters := {}
  failureN : ℕ := 0
  failure : String := ""

/-- The rows of a block, up to the first that fails. -/
def verifyRows (values : ℕ → ℤ) : ℕ → ℕ → Row → Machine BlockVerification
  | 0, _, row => pure { counters := row.counters }
  | size + 1, n, row => do
      let next ← verifyRow n (values n) row
      match next.failure with
      | some atom => pure ⟨next.counters, n, atom⟩
      | none => verifyRows values size (n + 1) next

/-- `mu < -1 || mu > 1` -/
def invalid (mu : ℤ) : Bool := decide (mu < -1 ∨ mu > 1)

/-- The change of the state over a block, which passes over invalid rows. -/
def blockDelta (values : ℕ → ℤ) : ℕ → ℕ → PrefixDelta → Machine PrefixDelta
  | 0, _, delta => pure delta
  | size + 1, n, delta =>
      if invalid (values n) then blockDelta values size (n + 1) delta
      else do
        let next ← addMobiusRow delta n (values n)
        blockDelta values size (n + 1) next

/-- The prefixes of the blocks, and at the end the change over the segment. -/
def blockPrefixes (segmentDelta : PrefixDelta) : List PrefixDelta → Machine (List PrefixDelta)
  | [] => pure [segmentDelta]
  | delta :: deltas => do
      let next ← addDelta segmentDelta delta
      let rest ← blockPrefixes next deltas
      pure (segmentDelta :: rest)

/-- `block_count` -/
def blockCount (count : ℕ) : ℕ := (count + kReductionBlockSize - 1) / kReductionBlockSize

/-- `block_size` -/
def blockSize (count index : ℕ) : ℕ := min kReductionBlockSize (count - index * kReductionBlockSize)

/-- What the loop over the segments carries. -/
structure Progress where
  delta : PrefixDelta := {}
  counters : VerificationCounters := {}
  segments : ℕ := 0

/-- The state before a block, then its rows. -/
def verifyBlock (estimate : UInt64 → UInt64) (values : ℕ → ℤ)
    (incoming delta blockPrefix : PrefixDelta) (blockLower size : ℕ) :
    Machine BlockVerification := do
  let base ← addDelta incoming delta
  let state ← addDelta blockPrefix base
  let root ← integerSqrtU64 (UInt64.ofNat blockLower) (estimate (UInt64.ofNat blockLower))
  let halfRoot ← integerSqrtU64 (UInt64.ofNat ((blockLower + 2) / 2))
    (estimate (UInt64.ofNat ((blockLower + 2) / 2)))
  verifyRows values size blockLower ⟨state, root, halfRoot, {}, none⟩

/-- The block that failed first, if one did. -/
def firstFailure (found : BlockVerification) (result : BlockVerification) : BlockVerification :=
  let counters := addCounters found.counters result.counters
  if result.failureN ≠ 0 ∧ (found.failureN = 0 ∨ result.failureN < found.failureN) then
    ⟨counters, result.failureN, result.failure⟩
  else { found with counters := counters }

/-- One segment: the changes over its blocks, their prefixes, then the checks. -/
def verifySegment (estimate : UInt64 → UInt64) (values : ℕ → ℤ) (incoming : PrefixDelta)
    (lower count : ℕ) (progress : Progress) : Machine (Except String Progress) := do
  let deltas ← (List.range (blockCount count)).mapM fun index =>
    blockDelta values (blockSize count index) (lower + index * kReductionBlockSize) 0
  if (List.range count).any fun index => invalid (values (lower + index)) then
    pure (.error "upstream sieve emitted a non-Mobius value")
  else
  let prefixes ← blockPrefixes 0 deltas
  let results ← (List.range (blockCount count)).mapM fun index =>
    verifyBlock estimate values incoming progress.delta (prefixes.getD index 0)
      (lower + index * kReductionBlockSize) (blockSize count index)
  let verification := results.foldl firstFailure { counters := progress.counters }
  if verification.failureN ≠ 0 then
    pure (.error (verification.failure ++ " failed at n=" ++ toString verification.failureN))
  else
  let delta ← addDelta progress.delta (prefixes.getD (blockCount count) 0)
  pure (.ok ⟨delta, verification.counters, progress.segments + 1⟩)

/-- The loop over the segments of a shard. -/
def verifySegments (estimate : UInt64 → UInt64) (shard : Shard) (values : ℕ → ℤ) (lower : ℕ)
    (progress : Progress) : Machine (Except String Progress) :=
  if _ : lower ≤ shard.upper then do
    let count := min shard.segmentSize (shard.upper - lower + 1)
    let outcome ← verifySegment estimate values shard.incoming lower count progress
    match outcome with
    | .error message => pure (.error message)
    | .ok next =>
        if lower + count - 1 = shard.upper then pure (.ok next)
        else verifySegments estimate shard values (lower + count) next
  else pure (.ok progress)
termination_by shard.upper + 1 - lower
decreasing_by
  have := shard.segment_pos
  omega

/-- The verify mode of the program: the checks of `parse_options`, then the loop of `main`. -/
def verifyShard (stencilPeriod : ℕ+) (estimate : UInt64 → UInt64) (options : Options)
    (values : ℕ → ℤ) : Machine (Except String Progress) :=
  match options.shard stencilPeriod with
  | .error message => pure (.error message)
  | .ok shard => verifySegments estimate shard values shard.lower {}

end AttestedCompute.Hurst
