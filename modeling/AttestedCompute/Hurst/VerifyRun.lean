import AttestedCompute.Hurst.Bounds

/-!
# A run of the verify mode

The rows of a block are taken in order and the blocks of a segment are independent of each other,
so a row is reached when the rows before it in its block pass, and so do all rows of the segments
before. If every row that is reached has a state small enough for its checks, then every operation
of the run is exact, each row is judged by its exact state, and the shard is accepted if and only
if all of its rows meet the published inequalities.
-/

namespace AttestedCompute.Hurst

/-! ## The exact states -/

/-- The state before a row: the incoming one and the rows before it. -/
def Shard.before (shard : Shard) (values : ℕ → ℤ) (n : ℕ) : PrefixDelta :=
  shard.incoming + localDelta values shard.lower n

/-- A row of the sieve that is a Möbius value. -/
def Valid (values : ℕ → ℤ) (n : ℕ) : Prop := invalid (values n) = false

/-- The sizes at which a row does not wrap, of the state before it and of the state it is judged
by. -/
structure Shard.StepFits (shard : Shard) (values : ℕ → ℤ) (n : ℕ) : Prop where
  before : (shard.before values n).Fits
  row : RowFits (shard.stateAt values n) n

theorem Shard.before_lower (shard : Shard) (values : ℕ → ℤ) :
    shard.before values shard.lower = shard.incoming := by
  unfold Shard.before
  rw [localDelta_self, add_zero]

theorem Shard.before_append {shard : Shard} (values : ℕ → ℤ) {a b : ℕ} (ha : shard.lower ≤ a)
    (hab : a ≤ b) : localDelta values a b + shard.before values a = shard.before values b := by
  unfold Shard.before
  rw [add_left_comm, add_comm (localDelta values a b), localDelta_append values ha hab]

theorem Shard.before_succ {shard : Shard} {values : ℕ → ℤ} {n : ℕ} (hn : shard.lower ≤ n)
    (hvalid : Valid values n) :
    shard.before values n + rowDelta n (values n) = shard.stateAt values n := by
  have hrow : sieveDelta values n = rowDelta n (values n) :=
    if_neg (Bool.eq_false_iff.mp hvalid)
  unfold Shard.before Shard.stateAt
  rw [localDelta_succ values hn, hrow, add_assoc]

theorem Shard.stateAt_ordered {shard : Shard} {values : ℕ → ℤ} {n : ℕ} (hn : shard.lower ≤ n) :
    (shard.stateAt values n).littleLower ≤ (shard.stateAt values n).littleUpper :=
  add_le_add shard.incoming_ordered (localDelta_ordered values (hn.trans (Nat.le_succ n)))

/-! ## The rows of a block -/

/-- **One row of a run**, from its exact state before. -/
theorem Shard.verifyRow_decides {shard : Shard} {values : ℕ → ℤ} {n : ℕ} {row : Row}
    (hlo : shard.lower ≤ n) (hhi : n ≤ shard.upper) (hrow : row.state = shard.before values n)
    (hvalid : Valid values n) (hfits : shard.StepFits values n) :
    RowDecides (verifyRow n (values n) row) (shard.stateAt values n)
      (RowPasses (shard.stateAt values n) n) := by
  refine Hurst.verifyRow_decides (shard.lower_pos.trans hlo) (hhi.trans shard.upper_le) ?_ hfits.row
    (Shard.stateAt_ordered hlo)
  rw [hrow]
  exact Shard.before_succ hlo hvalid

/-- **A block is exact** as far as it goes, and fails when one of its rows does. -/
theorem verifyRows_decides {shard : Shard} {values : ℕ → ℤ} {size n : ℕ} {row : Row}
    (hlo : shard.lower ≤ n) (hhi : n + size ≤ shard.upper + 1)
    (hrow : row.state = shard.before values n)
    (hvalid : ∀ m, n ≤ m → m < n + size → Valid values m)
    (hfits : ∀ m, n ≤ m → m < n + size →
      (∀ k, n ≤ k → k < m → RowPasses (shard.stateAt values k) k) → shard.StepFits values m) :
    ∃ result, verifyRows values size n row = pure result
      ∧ (result.failureN = 0
        ↔ ∀ m, n ≤ m → m < n + size → RowPasses (shard.stateAt values m) m) := by
  induction size generalizing n row with
  | zero => exact ⟨_, rfl, iff_of_true rfl fun m hge hlt => by omega⟩
  | succ size ih =>
      have hfirst := hfits n le_rfl (by omega) fun k hge hlt => by omega
      obtain ⟨next, hnext, hstate, hiff⟩ := Shard.verifyRow_decides hlo (by omega) hrow
        (hvalid n le_rfl (by omega)) hfirst
      unfold verifyRows
      rw [hnext, pure_bind]
      cases hfailure : next.failure with
      | some atom =>
          have hfails : ¬ RowPasses (shard.stateAt values n) n := fun hpass => by
            rw [hiff.mpr hpass] at hfailure
            cases hfailure
          have hpos := shard.lower_pos
          refine ⟨_, rfl, iff_of_false ?_ fun hall => hfails (hall n le_rfl (by omega))⟩
          exact Nat.ne_of_gt (hpos.trans hlo)
      | none =>
          have hpass := hiff.mp hfailure
          obtain ⟨result, hresult, hrest⟩ := ih (n := n + 1) (by omega) (by omega) hstate
            (fun m hge hlt => hvalid m (by omega) (by omega))
            (fun m hge hlt hearlier => hfits m (by omega) (by omega) fun k hk hkm => by
              by_cases hkn : k = n
              · exact hkn ▸ hpass
              · exact hearlier k (by omega) hkm)
          refine ⟨result, hresult, hrest.trans ⟨fun hall m hge hlt => ?_, fun hall m hge hlt =>
            hall m (by omega) (by omega)⟩⟩
          by_cases hmn : m = n
          · exact hmn ▸ hpass
          · exact hall m (by omega) (by omega)

/-! ## The blocks of a segment -/

/-- **The change over a block** never wraps. -/
theorem blockDelta_eq (values : ℕ → ℤ) (size : ℕ) {a n : ℕ} (ha : 1 ≤ a) (han : a ≤ n)
    (hlimit : n + size ≤ kSourceLimit + 1) :
    blockDelta values size n (localDelta values a n) = pure (localDelta values a (n + size)) := by
  induction size generalizing n with
  | zero => rfl
  | succ size ih =>
      have hsucc := localDelta_succ values han
      have hrest := ih (n := n + 1) (by omega) (by omega)
      rw [Nat.add_right_comm, Nat.add_assoc] at hrest
      unfold blockDelta
      by_cases hinvalid : invalid (values n) = true
      · have hzero : sieveDelta values n = 0 := if_pos hinvalid
        rw [hsucc, hzero, add_zero] at hrest
        rw [if_pos hinvalid]
        exact hrest
      · have hrow : sieveDelta values n = rowDelta n (values n) := if_neg hinvalid
        have hfits := localDelta_fits values ha (han.trans (Nat.le_succ n)) (by omega)
        rw [hsucc, hrow] at hfits hrest
        rw [if_neg hinvalid, addMobiusRow_eq (ha.trans han) hfits, pure_bind]
        exact hrest

/-- Where a block starts: a multiple of its size, or the end of the segment. -/
def blockEdge (lower count index : ℕ) : ℕ := lower + min (index * kReductionBlockSize) count

theorem blockEdge_zero (lower count : ℕ) : blockEdge lower count 0 = lower := by
  unfold blockEdge
  omega

theorem blockEdge_le (lower count index : ℕ) : blockEdge lower count index ≤ lower + count := by
  unfold blockEdge
  omega

theorem lower_le_blockEdge (lower count index : ℕ) : lower ≤ blockEdge lower count index :=
  Nat.le_add_right _ _

theorem blockEdge_last (lower count : ℕ) :
    blockEdge lower count (blockCount count) = lower + count := by
  unfold blockEdge blockCount kReductionBlockSize
  omega

theorem blockEdge_of_lt (lower : ℕ) {count index : ℕ} (h : index < blockCount count) :
    lower + index * kReductionBlockSize = blockEdge lower count index := by
  unfold blockCount kReductionBlockSize at h
  unfold blockEdge kReductionBlockSize
  omega

theorem blockSize_pos {count index : ℕ} (h : index < blockCount count) :
    0 < blockSize count index := by
  have hstart : index * kReductionBlockSize < count := by
    unfold blockCount kReductionBlockSize at h
    unfold kReductionBlockSize
    omega
  exact Nat.lt_min.mpr ⟨by decide, Nat.sub_pos_of_lt hstart⟩

theorem blockEdge_succ (lower count index : ℕ) :
    blockEdge lower count index + blockSize count index = blockEdge lower count (index + 1) := by
  unfold blockEdge blockSize kReductionBlockSize
  omega

/-- **The prefixes of the blocks** are exact. -/
theorem blockPrefixes_eq (values : ℕ → ℤ) {lower count : ℕ} (hlower : 1 ≤ lower)
    (hlimit : lower + count ≤ kSourceLimit + 1) (index length : ℕ)
    (hlength : index + length ≤ blockCount count) :
    blockPrefixes (localDelta values lower (blockEdge lower count index))
        ((List.range' index length).map fun i =>
          localDelta values (blockEdge lower count i) (blockEdge lower count (i + 1)))
      = pure ((List.range' index (length + 1)).map fun i =>
          localDelta values lower (blockEdge lower count i)) := by
  induction length generalizing index with
  | zero => rfl
  | succ length ih =>
      have hedge : blockEdge lower count index ≤ blockEdge lower count (index + 1) := by
        rw [← blockEdge_succ]
        exact Nat.le_add_right _ _
      have hsum := localDelta_append values (lower_le_blockEdge lower count index) hedge
      have hfits := localDelta_fits values hlower (lower_le_blockEdge lower count (index + 1))
        ((blockEdge_le _ _ _).trans hlimit)
      rw [← hsum] at hfits
      rw [List.range'_succ, List.map_cons]
      unfold blockPrefixes
      rw [addDelta_eq hfits, pure_bind, hsum, ih (index + 1) (by omega), pure_bind,
        @List.range'_succ index]
      rfl

theorem getD_prefixes {values : ℕ → ℤ} {lower count index : ℕ} (h : index ≤ blockCount count) :
    ((List.range' 0 (blockCount count + 1)).map fun i =>
        localDelta values lower (blockEdge lower count i)).getD index 0
      = localDelta values lower (blockEdge lower count index) := by
  rw [List.getD_eq_getElem?_getD, List.getElem?_map, ← List.range_eq_range',
    List.getElem?_range (by omega), Option.map_some, Option.getD_some]

/-- **A block is exact** from the state that the prefixes give it. -/
theorem verifyBlock_decides {shard : Shard} {values : ℕ → ℤ} {lower blockLower size : ℕ}
    (estimate : UInt64 → UInt64) (hlo : shard.lower ≤ lower) (hblock : lower ≤ blockLower)
    (hhi : blockLower + size ≤ shard.upper + 1) (hbase : (shard.before values lower).Fits)
    (hstart : (shard.before values blockLower).Fits)
    (hvalid : ∀ m, blockLower ≤ m → m < blockLower + size → Valid values m)
    (hfits : ∀ m, blockLower ≤ m → m < blockLower + size →
      (∀ k, blockLower ≤ k → k < m → RowPasses (shard.stateAt values k) k) →
      shard.StepFits values m) :
    ∃ result, verifyBlock estimate values shard.incoming (localDelta values shard.lower lower)
        (localDelta values lower blockLower) blockLower size = pure result
      ∧ (result.failureN = 0 ↔ ∀ m, blockLower ≤ m → m < blockLower + size →
        RowPasses (shard.stateAt values m) m) := by
  have hstate := Shard.before_append values hlo hblock
  obtain ⟨root, hroot, _⟩ := integerSqrtU64_eq (UInt64.ofNat blockLower)
    (estimate (UInt64.ofNat blockLower))
  obtain ⟨half, hhalf, _⟩ := integerSqrtU64_eq (UInt64.ofNat ((blockLower + 2) / 2))
    (estimate (UInt64.ofNat ((blockLower + 2) / 2)))
  have hsum : addDelta shard.incoming (localDelta values shard.lower lower)
      = pure (shard.before values lower) := addDelta_eq hbase
  rw [← hstate] at hstart
  unfold verifyBlock
  rw [hsum, pure_bind, addDelta_eq hstart, pure_bind, hroot, pure_bind, hhalf, pure_bind, hstate]
  exact verifyRows_decides (hlo.trans hblock) hhi rfl hvalid hfits

/-- The scan of the results finds a failure if there is one. -/
theorem foldl_firstFailure (results : List BlockVerification) (found : BlockVerification) :
    (results.foldl firstFailure found).failureN = 0
      ↔ found.failureN = 0 ∧ ∀ result ∈ results, result.failureN = 0 := by
  induction results generalizing found with
  | nil => exact ⟨fun h => ⟨h, fun _ hmem => absurd hmem List.not_mem_nil⟩, fun h => h.1⟩
  | cons result results ih =>
      have hstep : (firstFailure found result).failureN = 0
          ↔ found.failureN = 0 ∧ result.failureN = 0 := by
        unfold firstFailure
        by_cases hfirst : result.failureN ≠ 0
            ∧ (found.failureN = 0 ∨ result.failureN < found.failureN)
        · rw [if_pos hfirst]
          exact iff_of_false hfirst.1 fun h => hfirst.1 h.2
        · rw [if_neg hfirst]
          exact ⟨fun h : found.failureN = 0 => ⟨h, by omega⟩, fun h => h.1⟩
      rw [List.foldl_cons, ih, hstep, List.forall_mem_cons, and_assoc]

/-! ## Segments -/

/-- The segment of a row, and its block in the segment. -/
def Shard.segmentOf (shard : Shard) (n : ℕ) : ℕ := (n - shard.lower) / shard.segmentSize

def Shard.blockOf (shard : Shard) (n : ℕ) : ℕ :=
  (n - shard.lower) % shard.segmentSize / kReductionBlockSize

/-- A row that a run gets to: the segments up to its own are Möbius values, and the rows of the
segments before and those before it in its block pass. -/
structure Shard.Reached (shard : Shard) (values : ℕ → ℤ) (n : ℕ) : Prop where
  valid : ∀ m, shard.lower ≤ m → m ≤ shard.upper → shard.segmentOf m ≤ shard.segmentOf n →
    Valid values m
  earlier : ∀ m, shard.lower ≤ m → m < n → (shard.segmentOf m < shard.segmentOf n
    ∨ (shard.segmentOf m = shard.segmentOf n ∧ shard.blockOf m = shard.blockOf n)) →
    RowPasses (shard.stateAt values m) m

/-- The range of rows of one pass of the outer loop. -/
structure Shard.IsSegment (shard : Shard) (index lower count : ℕ) : Prop where
  start : lower = shard.lower + index * shard.segmentSize
  le : lower ≤ shard.upper
  count_eq : count = min shard.segmentSize (shard.upper - lower + 1)

namespace Shard.IsSegment

variable {shard : Shard} {index lower count : ℕ}

theorem lower_le (h : shard.IsSegment index lower count) : shard.lower ≤ lower := by
  rw [h.start]
  exact Nat.le_add_right _ _

theorem end_le (h : shard.IsSegment index lower count) : lower + count ≤ shard.upper + 1 := by
  have hle := h.le
  have hcount := h.count_eq
  omega

theorem count_pos (h : shard.IsSegment index lower count) : 0 < count := by
  have hpos := shard.segment_pos
  have hcount := h.count_eq
  omega

/-- A row up to a segment is before its end. -/
theorem lt_end (h : shard.IsSegment index lower count) {m : ℕ} (hm : m ≤ shard.upper)
    (hsegment : shard.segmentOf m ≤ index) : m < lower + count := by
  have hlt : m - shard.lower < (index + 1) * shard.segmentSize :=
    (Nat.div_lt_iff_lt_mul shard.segment_pos).mp (Nat.lt_succ_of_le hsegment)
  have hstart := h.start
  have hcount := h.count_eq
  rw [Nat.succ_mul] at hlt
  omega

/-- A row of an earlier segment is before its start. -/
theorem lt_start (h : shard.IsSegment index lower count) {m : ℕ}
    (hsegment : shard.segmentOf m < index) : m < lower := by
  have hlt : m - shard.lower < index * shard.segmentSize :=
    (Nat.div_lt_iff_lt_mul shard.segment_pos).mp hsegment
  have hstart := h.start
  omega

/-- The position of a row of the segment. -/
theorem position (h : shard.IsSegment index lower count) {m : ℕ} (hge : lower ≤ m)
    (hlt : m < lower + count) :
    shard.segmentOf m = index ∧ shard.blockOf m = (m - lower) / kReductionBlockSize := by
  have hstart := h.start
  have hcount := h.count_eq
  have hoffset : m - shard.lower = m - lower + shard.segmentSize * index := by
    rw [Nat.mul_comm]
    omega
  have hsmall : m - lower < shard.segmentSize := by omega
  unfold segmentOf blockOf
  rw [hoffset, Nat.add_mul_div_left _ _ shard.segment_pos, Nat.add_mul_mod_self_left,
    Nat.div_eq_of_lt hsmall, Nat.mod_eq_of_lt hsmall, Nat.zero_add]
  exact ⟨rfl, rfl⟩

/-- The rows of a block are rows of the segment. -/
theorem block_end_le (h : shard.IsSegment index lower count) (block : ℕ) :
    lower + block * kReductionBlockSize + blockSize count block ≤ lower + count
      ∨ blockCount count ≤ block := by
  have hcount := h.count_pos
  unfold blockSize blockCount kReductionBlockSize
  omega

/-- **A row is reached** once the segments before and the rows before it in its block are
through. -/
theorem reached (h : shard.IsSegment index lower count) {values : ℕ → ℤ} {block n : ℕ}
    (hblock : block < blockCount count) (hge : lower + block * kReductionBlockSize ≤ n)
    (hlt : n < lower + block * kReductionBlockSize + blockSize count block)
    (hvalid : ∀ m, shard.lower ≤ m → m < lower + count → Valid values m)
    (hpast : ∀ m, shard.lower ≤ m → m < lower → RowPasses (shard.stateAt values m) m)
    (hearlier : ∀ m, lower + block * kReductionBlockSize ≤ m → m < n →
      RowPasses (shard.stateAt values m) m) : shard.Reached values n := by
  have hend := (h.block_end_le block).resolve_right (not_le.mpr hblock)
  obtain ⟨hsegment, hblockOf⟩ := h.position (m := n) (by omega) (by omega)
  have hindex : (n - lower) / kReductionBlockSize = block := by
    unfold blockSize kReductionBlockSize at hlt
    unfold kReductionBlockSize at hge ⊢
    omega
  rw [hindex] at hblockOf
  refine ⟨fun m hlo hhi hle => hvalid m hlo (h.lt_end hhi (hsegment ▸ hle)),
    fun m hlo hmn hwhere => ?_⟩
  rcases Nat.lt_or_ge m lower with hbefore | hinside
  · exact hpast m hlo hbefore
  · obtain ⟨hsegmentM, hblockM⟩ := h.position hinside (by omega)
    -- a row of this segment is in the same block
    rcases hwhere with hsegmentLt | ⟨_, hsame⟩
    · omega
    · rw [hblockM, hblockOf] at hsame
      refine hearlier m ?_ hmn
      have hmul := Nat.div_mul_le_self (m - lower) kReductionBlockSize
      rw [hsame] at hmul
      omega

end Shard.IsSegment

/-- Every row of a segment is in one of its blocks. -/
theorem exists_block {lower count m : ℕ} (hge : lower ≤ m) (hlt : m < lower + count) :
    ∃ block, block < blockCount count ∧ lower + block * kReductionBlockSize ≤ m
      ∧ m < lower + block * kReductionBlockSize + blockSize count block := by
  refine ⟨(m - lower) / kReductionBlockSize, ?_, ?_, ?_⟩
  · unfold blockCount kReductionBlockSize
    omega
  · unfold kReductionBlockSize
    omega
  · unfold blockSize kReductionBlockSize
    omega

/-- The outcome of a part of a run: the exact change when it is accepted, which it is under a
condition. -/
def Accepts (outcome : Except String Progress) (delta : PrefixDelta) (P : Prop) : Prop :=
  (∀ next, outcome = .ok next → next.delta = delta) ∧ ((∃ next, outcome = .ok next) ↔ P)

theorem accepts_error {message : String} {delta : PrefixDelta} {P : Prop} (h : ¬ P) :
    Accepts (.error message) delta P := by
  refine ⟨fun next hnext => ?_, iff_of_false (fun hnext => ?_) h⟩
  · cases hnext
  · obtain ⟨next, hnext⟩ := hnext
    cases hnext

theorem accepts_ok {next : Progress} {delta : PrefixDelta} {P : Prop} (hdelta : next.delta = delta)
    (h : P) : Accepts (.ok next) delta P := by
  refine ⟨fun other hother => ?_, iff_of_true ⟨next, rfl⟩ h⟩
  cases hother
  exact hdelta

/-- The condition of a run: every row that is reached has a state small enough. -/
def Shard.RunFits (shard : Shard) (values : ℕ → ℤ) : Prop :=
  ∀ n, shard.lower ≤ n → n ≤ shard.upper → shard.Reached values n → shard.StepFits values n

/-- A row that passes as a Möbius value. -/
def Shard.Passes (shard : Shard) (values : ℕ → ℤ) (n : ℕ) : Prop :=
  Valid values n ∧ RowPasses (shard.stateAt values n) n

section Segment

variable {shard : Shard} {values : ℕ → ℤ} {index lower count : ℕ}

/-- The changes over the blocks. -/
theorem blockDeltas_eq (h : shard.IsSegment index lower count) :
    ((List.range (blockCount count)).mapM fun block =>
        blockDelta values (blockSize count block) (lower + block * kReductionBlockSize) 0)
      = pure ((List.range' 0 (blockCount count)).map fun block =>
        localDelta values (blockEdge lower count block) (blockEdge lower count (block + 1))) := by
  rw [← List.range_eq_range']
  refine Machine.mapM_eq fun block hmem => ?_
  have hpos := shard.lower_pos.trans h.lower_le
  have hend := h.end_le
  have hupper := shard.upper_le
  have hle := blockEdge_le lower count (block + 1)
  have hge := lower_le_blockEdge lower count block
  have hdelta := blockDelta_eq values (blockSize count block) (a := blockEdge lower count block)
    (by omega) le_rfl (by rw [blockEdge_succ]; omega)
  rw [localDelta_self, blockEdge_succ] at hdelta
  rw [blockEdge_of_lt lower (List.mem_range.mp hmem)]
  exact hdelta

/-- The prefixes of a segment, as `blockPrefixes` gives them. -/
def exactPrefixes (values : ℕ → ℤ) (lower count : ℕ) : List PrefixDelta :=
  (List.range' 0 (blockCount count + 1)).map fun block =>
    localDelta values lower (blockEdge lower count block)

theorem segmentPrefixes_eq (h : shard.IsSegment index lower count) :
    blockPrefixes 0 ((List.range' 0 (blockCount count)).map fun block =>
        localDelta values (blockEdge lower count block) (blockEdge lower count (block + 1)))
      = pure (exactPrefixes values lower count) := by
  have hlimit : lower + count ≤ kSourceLimit + 1 :=
    h.end_le.trans (Nat.succ_le_succ shard.upper_le)
  have hscan := blockPrefixes_eq values (shard.lower_pos.trans h.lower_le) hlimit 0
    (blockCount count) (by omega)
  rw [blockEdge_zero, localDelta_self] at hscan
  exact hscan

/-- One block of a segment that is reached. -/
theorem segmentBlock_decides (h : shard.IsSegment index lower count) (estimate : UInt64 → UInt64)
    (hfits : shard.RunFits values)
    (hvalid : ∀ m, shard.lower ≤ m → m < lower + count → Valid values m)
    (hpast : ∀ m, shard.lower ≤ m → m < lower → RowPasses (shard.stateAt values m) m) {block : ℕ}
    (hblock : block < blockCount count) :
    ∃ result, verifyBlock estimate values shard.incoming (localDelta values shard.lower lower)
        ((exactPrefixes values lower count).getD block 0) (lower + block * kReductionBlockSize)
        (blockSize count block) = pure result
      ∧ (result.failureN = 0 ↔ ∀ m, lower + block * kReductionBlockSize ≤ m →
        m < lower + block * kReductionBlockSize + blockSize count block →
        RowPasses (shard.stateAt values m) m) := by
  have hcount := h.count_pos
  have hend := h.end_le
  have hlower := h.lower_le
  have hblockEnd := (h.block_end_le block).resolve_right (not_le.mpr hblock)
  have hfirst := blockEdge_of_lt lower hblock
  have hstep : ∀ m, lower + block * kReductionBlockSize ≤ m →
      m < lower + block * kReductionBlockSize + blockSize count block →
      (∀ k, lower + block * kReductionBlockSize ≤ k → k < m →
        RowPasses (shard.stateAt values k) k) → shard.StepFits values m :=
    fun m hge hlt hearlier => hfits m (by omega) (by omega)
      (h.reached hblock hge hlt hvalid hpast hearlier)
  have hzero : 0 < blockCount count := by
    unfold blockCount kReductionBlockSize
    omega
  have hsize := blockSize_pos hblock
  have hsizeZero := blockSize_pos hzero
  -- the first rows of the segment and of the block are reached
  have hbase : (shard.before values lower).Fits :=
    (hfits lower hlower (by omega) (h.reached hzero (by omega) (by omega) hvalid hpast
      fun m hge hlt => by omega)).before
  have hstart := (hstep _ le_rfl (by omega) fun k hge hlt => by omega).before
  have hbefore : (exactPrefixes values lower count).getD block 0
      = localDelta values lower (lower + block * kReductionBlockSize) := by
    rw [hfirst]
    exact getD_prefixes hblock.le
  rw [hbefore]
  exact verifyBlock_decides estimate hlower (by omega) (by omega) hbase hstart
    (fun m hge hlt => hvalid m (by omega) (by omega)) hstep

/-- **The blocks of a segment** are exact, and none fails when all rows pass. -/
theorem blockResults_decide (h : shard.IsSegment index lower count) (estimate : UInt64 → UInt64)
    (hfits : shard.RunFits values)
    (hvalid : ∀ m, shard.lower ≤ m → m < lower + count → Valid values m)
    (hpast : ∀ m, shard.lower ≤ m → m < lower → RowPasses (shard.stateAt values m) m) :
    ∃ results, ((List.range (blockCount count)).mapM fun block =>
        verifyBlock estimate values shard.incoming (localDelta values shard.lower lower)
          ((exactPrefixes values lower count).getD block 0) (lower + block * kReductionBlockSize)
          (blockSize count block)) = pure results
      ∧ ((∀ result ∈ results, result.failureN = 0)
        ↔ ∀ m, lower ≤ m → m < lower + count → RowPasses (shard.stateAt values m) m) := by
  obtain ⟨results, hresults, hiff⟩ := Machine.mapM_forall fun block hmem =>
    segmentBlock_decides h estimate hfits hvalid hpast (List.mem_range.mp hmem)
  refine ⟨results, hresults, hiff.trans ⟨fun hall m hge hlt => ?_, fun hall block hmem => ?_⟩⟩
  · obtain ⟨block, hblock, hstart, hend⟩ := exists_block hge hlt
    exact hall block (List.mem_range.mpr hblock) m hstart hend
  · have hend := (h.block_end_le block).resolve_right (not_le.mpr (List.mem_range.mp hmem))
    exact fun m hge hlt => hall m (by omega) (by omega)

/-- **A segment is exact**: it is accepted when all of its rows are Möbius values that pass, and
then with the exact change. -/
theorem verifySegment_decides (h : shard.IsSegment index lower count)
    (estimate : UInt64 → UInt64) (hfits : shard.RunFits values) {progress : Progress}
    (hdelta : progress.delta = localDelta values shard.lower lower)
    (hpast : ∀ m, shard.lower ≤ m → m < lower → shard.Passes values m) :
    ∃ outcome, verifySegment estimate values shard.incoming lower count progress = pure outcome
      ∧ Accepts outcome (localDelta values shard.lower (lower + count))
        (∀ m, lower ≤ m → m < lower + count → shard.Passes values m) := by
  have hpos := shard.lower_pos
  have hlower := h.lower_le
  have hend := h.end_le
  have hlimit : lower + count ≤ kSourceLimit + 1 := hend.trans (Nat.succ_le_succ shard.upper_le)
  unfold verifySegment
  rw [blockDeltas_eq h, pure_bind]
  by_cases hany : ((List.range count).any fun row => invalid (values (lower + row))) = true
  · rw [if_pos hany]
    obtain ⟨row, hmem, hinvalid⟩ := List.any_eq_true.mp hany
    refine ⟨_, rfl, accepts_error fun hall => ?_⟩
    have hvalid := (hall (lower + row) (Nat.le_add_right _ _)
      (Nat.add_lt_add_left (List.mem_range.mp hmem) lower)).1
    exact Bool.false_ne_true (hvalid.symm.trans hinvalid)
  · have hvalid : ∀ m, shard.lower ≤ m → m < lower + count → Valid values m := by
      intro m hlo hhi
      by_cases hbefore : m < lower
      · exact (hpast m hlo hbefore).1
      · refine Bool.eq_false_iff.mpr fun hinvalid => hany (List.any_eq_true.mpr ?_)
        refine ⟨m - lower, List.mem_range.mpr (by omega), ?_⟩
        rwa [Nat.add_sub_of_le (not_lt.mp hbefore)]
    obtain ⟨results, hresults, hiff⟩ := blockResults_decide h estimate hfits hvalid
      fun m hlo hhi => (hpast m hlo hhi).2
    have hscan := foldl_firstFailure results { counters := progress.counters }
    have hlast : (exactPrefixes values lower count).getD (blockCount count) 0
        = localDelta values lower (lower + count) := by
      rw [← blockEdge_last]
      exact getD_prefixes le_rfl
    have hsum := localDelta_append values hlower (Nat.le_add_right lower count)
    have hfitsSum := localDelta_fits values hpos (hlower.trans (Nat.le_add_right _ _)) hlimit
    rw [← hsum] at hfitsSum
    rw [if_neg hany, segmentPrefixes_eq h, pure_bind, hdelta, hresults, pure_bind]
    by_cases hfailure :
        (results.foldl firstFailure { counters := progress.counters }).failureN ≠ 0
    · refine ⟨_, if_pos hfailure, accepts_error fun hall => hfailure (hscan.mpr ⟨rfl, ?_⟩)⟩
      exact hiff.mpr fun m hge hlt => (hall m hge hlt).2
    · have hpass := hiff.mp (hscan.mp (not_not.mp hfailure)).2
      dsimp only
      rw [if_neg hfailure, hlast, addDelta_eq hfitsSum, pure_bind, hsum]
      exact ⟨_, rfl, accepts_ok rfl fun m hge hlt =>
        ⟨hvalid m (hlower.trans hge) hlt, hpass m hge hlt⟩⟩

end Segment

/-! ## The shard -/

/-- **The outer loop**, from a segment whose rows before all pass. -/
theorem verifySegments_decides {shard : Shard} {values : ℕ → ℤ} (estimate : UInt64 → UInt64)
    (hfits : shard.RunFits values) {index lower : ℕ} {progress : Progress}
    (hstart : lower = shard.lower + index * shard.segmentSize) (hle : lower ≤ shard.upper)
    (hdelta : progress.delta = localDelta values shard.lower lower)
    (hpast : ∀ m, shard.lower ≤ m → m < lower → shard.Passes values m) :
    ∃ outcome, verifySegments estimate shard values lower progress = pure outcome
      ∧ Accepts outcome (localDelta values shard.lower (shard.upper + 1))
        (∀ m, lower ≤ m → m ≤ shard.upper → shard.Passes values m) := by
  induction hn : shard.upper + 1 - lower using Nat.strong_induction_on
    generalizing index lower progress with
  | _ n ih =>
      generalize hcount : min shard.segmentSize (shard.upper - lower + 1) = count
      have h : shard.IsSegment index lower count := ⟨hstart, hle, hcount.symm⟩
      have hpos := h.count_pos
      have hend := h.end_le
      obtain ⟨outcome, houtcome, hexact, hiff⟩ :=
        verifySegment_decides h estimate hfits hdelta hpast
      unfold verifySegments
      rw [dif_pos hle]
      dsimp only
      rw [hcount, houtcome, pure_bind]
      cases outcome with
      | error message =>
          refine ⟨_, rfl, accepts_error fun hall => ?_⟩
          obtain ⟨next, hnext⟩ := hiff.mpr fun m hge hlt => hall m hge (by omega)
          cases hnext
      | ok next =>
          have hpass := hiff.mp ⟨next, rfl⟩
          have hnext := hexact next rfl
          dsimp only
          by_cases hlast : lower + count - 1 = shard.upper
          · have hsucc : lower + count = shard.upper + 1 := by omega
            rw [hsucc] at hnext
            rw [if_pos hlast]
            exact ⟨_, rfl, accepts_ok hnext fun m hge hle => hpass m hge (by omega)⟩
          · have hfull : count = shard.segmentSize := by omega
            have hstartNext : lower + count = shard.lower + (index + 1) * shard.segmentSize := by
              rw [hfull, hstart, Nat.succ_mul, Nat.add_assoc]
            have hpastNext : ∀ m, shard.lower ≤ m → m < lower + count → shard.Passes values m := by
              intro m hlo hhi
              by_cases hbefore : m < lower
              · exact hpast m hlo hbefore
              · exact hpass m (not_lt.mp hbefore) hhi
            obtain ⟨result, hresult, hrest, hiffRest⟩ :=
              ih _ (by omega) hstartNext (by omega) hnext hpastNext rfl
            rw [if_neg hlast]
            refine ⟨result, hresult, hrest, hiffRest.trans ⟨fun hall m hge hle => ?_,
              fun hall m hge hle => hall m (by omega) hle⟩⟩
            by_cases hbefore : m < lower + count
            · exact hpass m hge hbefore
            · exact hall m (not_lt.mp hbefore) hle

/-- A million times the square of the Mertens state after row 33 is a multiple of `2^128`. -/
def wrappedOptions : Options :=
  { lower := 33
    upper := 33
    incomingMertens := 2305843009213693951
    incomingMertensGiven := true
    incomingSquarefreeGiven := true
    incomingLittleLowerGiven := true
    incomingLittleUpperGiven := true }

def wrappedState : PrefixDelta :=
  { mertens := 2305843009213693952
    squarefree := 1
    littleLower := 2400853409523161745258907585
    littleUpper := 2400853409523161745258907586 }

/-- The shard of those options, as `parse_options` accepts it. -/
theorem wrappedOptions_accepted :
    ∃ shard, wrappedOptions.shard 1 = .ok shard ∧ shard.lower = 33 ∧ shard.upper = 33
      ∧ shard.segmentSize = 110880000 ∧ shard.incoming = wrappedOptions.incoming := by
  unfold Options.shard
  rw [dif_neg (by decide), dif_neg (by decide), if_neg (by decide), dif_neg (by decide)]
  exact ⟨_, rfl, rfl, rfl, rfl, rfl⟩

theorem wrappedState_eq : wrappedOptions.incoming + rowDelta 33 1 = wrappedState := by decide

theorem wrappedState_fits : wrappedState.Fits := by
  refine ⟨?_, ?_, ?_, ?_, ?_, ?_, ?_, ?_⟩ <;> decide

/-- The check multiplies, reduces and accepts. -/
theorem verifyHurstValue_wraps (counters : VerificationCounters) {root : UInt64}
    (h : IsRoot root 33) :
    ∃ after, verifyHurstValue 33 wrappedState.mertens root counters = ⟨⟨true, after⟩, false⟩ := by
  have hsqrt : Nat.sqrt 33 = 5 := by norm_num
  have hroot : root = 5 := UInt64.toNat_inj.mp (h.eq_sqrt.trans hsqrt)
  subst hroot
  exact ⟨_, rfl⟩

theorem verifyRow_wraps {row : Row} (hrow : row.state = wrappedOptions.incoming) :
    ∃ next, verifyRow 33 1 row = ⟨next, false⟩ ∧ next.failure = none := by
  have hle : (33 : ℕ) ≤ kSourceLimit := by decide
  obtain ⟨root, hroot, hisRoot⟩ := @advanceFloorRoot_isRoot 33 (by decide) row.root
  have hstate : addMobiusRow row.state 33 1 = pure wrappedState := by
    rw [hrow, ← wrappedState_eq]
    exact addMobiusRow_eq (by decide) (wrappedState_eq ▸ wrappedState_fits)
  obtain ⟨after, hhurst⟩ := verifyHurstValue_wraps row.counters hisRoot
  obtain ⟨rightRoot, hrightRoot, hisRight⟩ := rightRoot_eq hle root
  obtain ⟨squarefree, hsquarefree, hiffSquarefree⟩ := bothSquarefreeSafe_decides hle hisRoot
    hisRight wrappedState_fits (fun hreached => absurd hreached (by decide)) after
  have hacceptSquarefree : squarefree.accepted = true :=
    hiffSquarefree.mpr ⟨⟨fun h => absurd h (by decide), fun h => absurd h (by decide)⟩,
      ⟨fun h => absurd h (by decide), fun h => absurd h (by decide)⟩⟩
  -- the interval is that of row 33 alone, well within both little bounds
  have hceil : ceilSqrt 17 = 5 := by
    unfold ceilSqrt
    norm_num
  have hmultiplier : littleMultiplier false (rightEndpoint 33) = 5 := by
    change ((ceilSqrt 17 : ℕ) : ℤ) = 5
    rw [hceil]
    rfl
  have hfits : LittleFits false (rightEndpoint 33) wrappedState.littleLower
      wrappedState.littleUpper := by
    refine ⟨fun _ => ?_, fun h => absurd h (by decide)⟩
    rw [hmultiplier]
    decide
  have hpassLittle : LittlePasses false wrappedState (rightEndpoint 33) := by
    unfold LittlePasses LittleTest
    decide
  have hpassStronger : LittlePasses true wrappedState 34 := by
    unfold LittlePasses LittleTest
    decide
  obtain ⟨little, hlittle, hiffLittle⟩ := little_decides wrappedState_fits (by decide)
    (fun _ => hfits) root row.halfRoot squarefree.counters
  have hacceptLittle := hiffLittle.mpr fun _ => hpassLittle
  obtain ⟨stronger, hstronger, hiffStronger⟩ := stronger_decides wrappedState_fits (by decide)
    (fun _ => hpassLittle) root hacceptLittle
  have hacceptStronger := hiffStronger.mpr fun _ => hpassStronger
  unfold verifyRow
  rw [hroot, pure_bind, hstate, pure_bind, if_pos (by decide), hhurst, Machine.bind_inexact,
    if_neg (not_not.mpr rfl), hrightRoot, pure_bind, hsquarefree, pure_bind,
    if_neg (not_not.mpr hacceptSquarefree), hlittle, pure_bind,
    if_neg (not_not.mpr hacceptLittle), hstronger, pure_bind,
    if_neg (not_not.mpr hacceptStronger)]
  exact ⟨_, rfl, rfl⟩

/-- The block of that row. -/
theorem verifyRows_wraps {row : Row} (hrow : row.state = wrappedOptions.incoming) :
    ∃ result, verifyRows (fun _ => 1) 1 33 row = ⟨result, false⟩ ∧ result.failureN = 0 := by
  obtain ⟨next, hnext, hfailure⟩ := verifyRow_wraps hrow
  unfold verifyRows
  rw [hnext, Machine.bind_inexact, hfailure]
  exact ⟨_, rfl, rfl⟩

theorem verifyBlock_wraps :
    ∃ result, verifyBlock id (fun _ => 1) wrappedOptions.incoming 0 0 33 1 = ⟨result, false⟩
      ∧ result.failureN = 0 := by
  obtain ⟨root, hroot, _⟩ := integerSqrtU64_eq (UInt64.ofNat 33) (id (UInt64.ofNat 33))
  obtain ⟨half, hhalf, _⟩ := integerSqrtU64_eq (UInt64.ofNat ((33 + 2) / 2))
    (id (UInt64.ofNat ((33 + 2) / 2)))
  have hsum : addDelta wrappedOptions.incoming 0 = pure wrappedOptions.incoming := rfl
  have hstate : addDelta 0 wrappedOptions.incoming = pure wrappedOptions.incoming := rfl
  unfold verifyBlock
  rw [hsum, pure_bind, hstate, pure_bind, hroot, pure_bind, hhalf, pure_bind]
  exact verifyRows_wraps rfl

theorem verifySegment_wraps :
    ∃ next, verifySegment id (fun _ => 1) wrappedOptions.incoming 33 1 {} = ⟨.ok next, false⟩ := by
  obtain ⟨result, hresult, hpass⟩ := verifyBlock_wraps
  have hcount : List.range (blockCount 1) = [0] := by decide
  have hdelta : blockDelta (fun _ => 1) (blockSize 1 0) (33 + 0 * kReductionBlockSize) 0
      = pure (rowDelta 33 1) := by decide
  have hscanned : blockPrefixes 0 [rowDelta 33 1] = pure [0, rowDelta 33 1] := by decide
  have hblock : verifyBlock id (fun _ => 1) wrappedOptions.incoming 0
      ([0, rowDelta 33 1].getD 0 0) (33 + 0 * kReductionBlockSize) (blockSize 1 0)
      = ⟨result, false⟩ := hresult
  have hscan : ¬ ([result].foldl firstFailure {}).failureN ≠ 0 :=
    not_not.mpr ((foldl_firstFailure _ _).mpr ⟨rfl, fun other hmem => by
      rw [List.mem_singleton.mp hmem]
      exact hpass⟩)
  unfold verifySegment
  rw [hcount, List.mapM_cons, hdelta, pure_bind, List.mapM_nil, pure_bind, pure_bind,
    if_neg (by decide), hscanned, pure_bind, List.mapM_cons]
  change ∃ next, (verifyBlock id (fun _ => 1) wrappedOptions.incoming 0
    ([0, rowDelta 33 1].getD 0 0) (33 + 0 * kReductionBlockSize) (blockSize 1 0) >>= _) >>= _ = _
  rw [hblock, Machine.bind_inexact, Machine.bind_inexact, List.mapM_nil, pure_bind,
    Machine.pure_value]
  dsimp only
  rw [if_neg hscan]
  exact ⟨_, rfl⟩

end AttestedCompute.Hurst
