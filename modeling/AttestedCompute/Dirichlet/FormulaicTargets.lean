import AttestedCompute.Dirichlet.FormulaicPlan

/-!
# The targets of a formulaic plan

The list of targets a plan stands for, which the program never builds: for each modulus in
execution order and each lane, the batches of the ordinates both have. The lanes of an accepted
plan tile the ordinates, and each boundary inside the tiling is a multiple of the batch size, so
the targets of one modulus are the batches of its whole stretch. The closed-form accounting is
the tally of this list.
-/

namespace AttestedCompute.Dirichlet.Formulaic

open Fallible

/-! ## Tilings -/

/-- Lanes numbered from `index` on that run from `start` to `stop` without gaps, with every
boundary inside a multiple of the batch size. -/
def Tiles (size : Int) : Nat → Int → List LaneRange → Int → Prop
  | _, start, [], stop => start = stop
  | index, start, lane :: rest, stop =>
      lane.laneIndex = index ∧ lane.firstTIndex = start ∧ start < lane.tIndexStopExclusive ∧
        (rest ≠ [] → size ∣ lane.tIndexStopExclusive) ∧
        Tiles size (index + 1) lane.tIndexStopExclusive rest stop

theorem checkLanes_ok {size : Int} {lanes : List LaneRange} {index : Nat} {start stop : Int}
    (h : checkLanes size index start lanes = .ok stop) : Tiles size index start lanes stop := by
  induction lanes generalizing index start with
  | nil => exact pure_ok.mp h
  | cons lane rest ih =>
      simp only [checkLanes, bind_ok, integer_ok, PyValue.int.injEq, refuseIf_ok] at h
      obtain ⟨_, ⟨rfl, _⟩, _, ⟨rfl, _⟩, _, ⟨rfl, _⟩, _, horder, _, hboundary, hrest⟩ := h
      push Not at horder hboundary
      refine ⟨horder.1, horder.2.1, by omega, fun hne => ?_, ih hrest⟩
      exact Int.dvd_of_emod_eq_zero (hboundary hne)

namespace Tiles

variable {size : Int} {index : Nat} {start stop : Int} {lanes : List LaneRange}

theorem le (h : Tiles size index start lanes stop) : start ≤ stop := by
  induction lanes generalizing index start with
  | nil => exact le_of_eq h
  | cons lane rest ih =>
      have hrest := ih h.2.2.2.2
      have hlt := h.2.2.1
      omega

/-- A lane stands at its own index, and no lane starts before its index. -/
theorem of_mem (h : Tiles size index start lanes stop) {lane : LaneRange} (hlane : lane ∈ lanes) :
    ∃ k : Nat, lanes[k]? = some lane ∧ lane.laneIndex = index + k ∧ start + k ≤ lane.firstTIndex := by
  induction lanes generalizing index start with
  | nil => cases hlane
  | cons first rest ih =>
      obtain ⟨hindex, hstart, hlt, _, hrest⟩ := h
      rcases List.mem_cons.mp hlane with rfl | hmem
      · exact ⟨0, rfl, by rw [hindex]; rfl, by rw [hstart]; simp⟩
      · obtain ⟨k, hk, hlaneIndex, hfirst⟩ := ih hrest hmem
        exact ⟨k + 1, hk, by omega, by omega⟩

end Tiles

/-- What the checks of a plan establish about its batch size, its lanes and its records. -/
structure Tiled (size : Int) (lanes : List LaneRange) (records : List ScheduleRecord) : Prop where
  size_pos : 0 < size
  size_le : size ≤ MAXIMUM_BATCH_COUNT
  tiles : ∃ stop, 0 < stop ∧ Tiles size 0 0 lanes stop ∧
    ∀ record ∈ records, record.tIndexCount ≤ stop

theorem le_requiredStop {records : List ScheduleRecord} {record : ScheduleRecord}
    (h : record ∈ records) : record.tIndexCount ≤ requiredStop records := by
  have hmono : ∀ (xs : List ScheduleRecord) (b : Int), b ≤ xs.foldl
      (fun stop record => max stop record.tIndexCount) b ∧ ∀ x ∈ xs, x.tIndexCount ≤ xs.foldl
      (fun stop record => max stop record.tIndexCount) b := by
    intro xs
    induction xs with
    | nil => intro b; exact ⟨le_rfl, fun x hx => by cases hx⟩
    | cons x xs ih =>
        intro b
        obtain ⟨hb, hxs⟩ := ih (max b x.tIndexCount)
        rw [List.foldl_cons]
        refine ⟨(le_max_left _ _).trans hb, fun y hy => ?_⟩
        rcases List.mem_cons.mp hy with rfl | hy
        · exact (le_max_right _ _).trans hb
        · exact hxs y hy
  exact (hmono records 0).2 record h

theorem validateLanes_ok {lanes checked : List LaneRange} {records : List ScheduleRecord}
    {size : Int} (h : validateLanes lanes (requiredStop records) size = .ok checked) :
    checked = lanes ∧ Tiled size lanes records := by
  simp only [validateLanes, bind_ok, integer_ok, PyValue.int.injEq, refuseIf_ok, pure_ok] at h
  obtain ⟨_, ⟨rfl, hpos, _⟩, _, ⟨rfl, hsize, hmax⟩, _, _, stop, hlanes, _, hcovers, rfl⟩ := h
  refine ⟨rfl, by omega, hmax, stop, by omega, checkLanes_ok hlanes, fun record hrecord => ?_⟩
  exact (le_requiredStop hrecord).trans (not_lt.mp hcovers)

theorem sliceBounds_ok {schedule : ParsedScheduleManifest} {first start stop : Int}
    {last : Option Int} (h : sliceBounds schedule first last = .ok (start, stop)) :
    start = first ∧ stop = last.getD schedule.executionRecords.length ∧
      0 ≤ start ∧ start < stop ∧ stop ≤ schedule.executionRecords.length := by
  cases last with
  | none =>
      simp only [sliceBounds, bind_ok, integer_ok, PyValue.int.injEq, refuseIf_ok,
        pure_ok, Prod.mk.injEq] at h
      obtain ⟨_, ⟨rfl, hlow, _⟩, _, rfl, _, hlt, rfl, rfl⟩ := h
      exact ⟨rfl, rfl, hlow, not_le.mp hlt, le_rfl⟩
  | some last =>
      simp only [sliceBounds, bind_ok, integer_ok, PyValue.int.injEq, refuseIf_ok,
        pure_ok, Prod.mk.injEq] at h
      obtain ⟨_, ⟨rfl, hlow, _⟩, _, ⟨rfl, _, hhigh⟩, _, hlt, rfl, rfl⟩ := h
      exact ⟨rfl, rfl, hlow, not_le.mp hlt, hhigh⟩

/-- What an accepted plan is. -/
structure PlanIdentity.Accepted (plan : PlanIdentity) (schedule : ParsedScheduleManifest)
    (lanes : List LaneRange) (first : Int) (last : Option Int) (size : Int) : Prop where
  start_eq : plan.startExecutionQIndex = first
  stop_eq : plan.stopExecutionQIndex = last.getD schedule.executionRecords.length
  lanes_eq : plan.lanes = lanes
  size_eq : plan.maximumBatchCount = size
  start_nonneg : 0 ≤ plan.startExecutionQIndex
  start_lt_stop : plan.startExecutionQIndex < plan.stopExecutionQIndex
  stop_le : plan.stopExecutionQIndex ≤ schedule.executionRecords.length
  tiled : Tiled size lanes (schedule.slice plan.startExecutionQIndex plan.stopExecutionQIndex)

theorem planIdentity_ok {schedule : ParsedScheduleManifest} {lanes : List LaneRange}
    {first : Int} {last : Option Int} {size : Int} {plan : PlanIdentity}
    (h : planIdentity schedule lanes first last size = .ok plan) :
    plan.Accepted schedule lanes first last size := by
  simp only [planIdentity, bind_ok, pure_ok] at h
  obtain ⟨⟨start, stop⟩, hslice, checked, hlanes, hash, _, rfl⟩ := h
  obtain ⟨rfl, htiled⟩ := validateLanes_ok hlanes
  obtain ⟨hstart, hstop, hlow, hlt, hhigh⟩ := sliceBounds_ok hslice
  exact ⟨hstart, hstop, rfl, rfl, hlow, hlt, hhigh, htiled⟩

/-! ## The list of targets -/

/-- The targets of one modulus in one lane, from an ordinate on. -/
def laneTargets (size index : Int) (record : ScheduleRecord) (nextT : Int) (lane : LaneRange) :
    List FormulaicTarget :=
  (Batches.cut size nextT (min record.tIndexCount lane.tIndexStopExclusive)).map fun batch =>
    ⟨index, record.q, lane.laneIndex, batch.1, batch.2⟩

/-- The targets of one modulus, lane after lane. -/
def recordTargets (size : Int) (lanes : List LaneRange) (index : Int) (record : ScheduleRecord) :
    List FormulaicTarget :=
  lanes.flatMap fun lane => laneTargets size index record lane.firstTIndex lane

/-- The targets of a list of moduli, of which the first has the given execution index. -/
def planTargets (size : Int) (lanes : List LaneRange) : Int → List ScheduleRecord →
    List FormulaicTarget
  | _, [] => []
  | index, record :: rest =>
      recordTargets size lanes index record ++ planTargets size lanes (index + 1) rest

/-- The ordinates of a target. -/
def FormulaicTarget.span (target : FormulaicTarget) : Int × Int :=
  (target.firstTIndex, target.tIndexStopExclusive)

/-- **The lanes cut no batch in two**: the spans of one modulus are the batches of its stretch. -/
theorem map_span_recordTargets {size : Int} (hsize : 0 < size) {lanes : List LaneRange}
    {index : Int} {record : ScheduleRecord} {k : Nat} {start stop : Int}
    (htiles : Tiles size k start lanes stop) (hstart : size ∣ start)
    (hstop : record.tIndexCount ≤ stop) :
    (recordTargets size lanes index record).map FormulaicTarget.span =
      Batches.cut size start record.tIndexCount := by
  induction lanes generalizing k start with
  | nil =>
      have heq : start = stop := htiles
      rw [Batches.cut_eq_nil hsize (by omega)]
      rfl
  | cons lane rest ih =>
      obtain ⟨_, rfl, hlt, hboundary, hrest⟩ := htiles
      have hhead : (laneTargets size index record lane.firstTIndex lane).map FormulaicTarget.span =
          Batches.cut size lane.firstTIndex
            (min record.tIndexCount lane.tIndexStopExclusive) := by
        rw [laneTargets, List.map_map]
        exact List.map_id _
      have hsplit : (recordTargets size (lane :: rest) index record).map FormulaicTarget.span =
          Batches.cut size lane.firstTIndex (min record.tIndexCount lane.tIndexStopExclusive) ++
            (recordTargets size rest index record).map FormulaicTarget.span := by
        rw [← hhead, ← List.map_append]
        rfl
      rw [hsplit]
      by_cases hcase : record.tIndexCount ≤ lane.tIndexStopExclusive
      · -- the modulus ends in this lane, and every later lane starts past its end
        have hlater : ∀ (more : List LaneRange) (j : Nat) (a : Int),
            Tiles size j a more stop → record.tIndexCount ≤ a →
            (recordTargets size more index record).map FormulaicTarget.span = [] := by
          intro more
          induction more with
          | nil => intros; rfl
          | cons first more ihmore =>
              intro j a htiles ha
              obtain ⟨_, rfl, hafter, _, hmore⟩ := htiles
              have hnil := ihmore _ _ hmore (by omega)
              rw [recordTargets, List.flatMap_cons, List.map_append, laneTargets,
                Batches.cut_eq_nil hsize (by omega), List.map_nil, List.map_nil, List.nil_append]
              exact hnil
        rw [min_eq_left hcase, hlater rest _ _ hrest hcase, List.append_nil]
      · have hne : rest ≠ [] := by
          rintro rfl
          have heq : lane.tIndexStopExclusive = stop := hrest
          omega
        rw [min_eq_right (by omega), ih hrest (hboundary hne)]
        exact (Batches.cut_append hsize (dvd_sub (hboundary hne) hstart) hlt.le (by omega)).symm

/-- Where a target of one modulus lies. -/
theorem mem_recordTargets {size : Int} (hsize : 0 < size) {lanes : List LaneRange} {index : Int}
    {record : ScheduleRecord} {target : FormulaicTarget}
    (h : target ∈ recordTargets size lanes index record) :
    target.executionQIndex = index ∧ target.q = record.q ∧
      target.firstTIndex < target.tIndexStopExclusive ∧
      target.tIndexStopExclusive ≤ record.tIndexCount ∧ target.batchCount ≤ size ∧
      ∃ lane ∈ lanes, target.laneIndex = lane.laneIndex ∧
        lane.firstTIndex ≤ target.firstTIndex ∧
        target.tIndexStopExclusive ≤ lane.tIndexStopExclusive := by
  obtain ⟨lane, hlane, hmem⟩ := List.mem_flatMap.mp h
  obtain ⟨batch, hbatch, rfl⟩ := List.mem_map.mp hmem
  obtain ⟨hlow, hlt, hhigh, hlen⟩ := Batches.mem_cut hsize hbatch
  exact ⟨rfl, rfl, hlt, hhigh.trans (min_le_left _ _), hlen, lane, hlane, rfl, hlow,
    hhigh.trans (min_le_right _ _)⟩

/-- A target of a plan is one of some modulus of the plan. -/
theorem mem_planTargets {size : Int} {lanes : List LaneRange} {records : List ScheduleRecord}
    {index : Int} {target : FormulaicTarget} (h : target ∈ planTargets size lanes index records) :
    ∃ k record, records[k]? = some record ∧
      target ∈ recordTargets size lanes (index + (k : Nat)) record := by
  induction records generalizing index with
  | nil => cases h
  | cons first rest ih =>
      rcases List.mem_append.mp h with h | h
      · exact ⟨0, first, rfl, by simpa using h⟩
      · obtain ⟨k, record, hk, hmem⟩ := ih h
        refine ⟨k + 1, record, hk, ?_⟩
        rwa [Nat.cast_succ, add_comm (k : Int) 1, ← add_assoc]

/-- The targets with one execution index are those of its modulus. -/
theorem filter_planTargets {size : Int} (hsize : 0 < size) {lanes : List LaneRange}
    {records : List ScheduleRecord} {index : Int} {k : Nat} {record : ScheduleRecord}
    (h : records[k]? = some record) :
    (planTargets size lanes index records).filter (·.executionQIndex = index + (k : Nat)) =
      recordTargets size lanes (index + (k : Nat)) record := by
  have hfilter : ∀ (i j : Int) (r : ScheduleRecord),
      (recordTargets size lanes i r).filter (·.executionQIndex = j) =
        if i = j then recordTargets size lanes i r else [] := by
    intro i j r
    split
    · rename_i heq
      exact List.filter_eq_self.mpr fun t ht => by
        simpa [heq] using (mem_recordTargets hsize ht).1
    · rename_i hne
      exact List.filter_eq_nil_iff.mpr fun t ht => by
        simpa [(mem_recordTargets hsize ht).1] using hne
  induction records generalizing index k with
  | nil => cases h
  | cons first rest ih =>
      rw [planTargets, List.filter_append, hfilter]
      cases k with
      | zero =>
          cases h
          have hnone : (planTargets size lanes (index + 1) rest).filter
              (·.executionQIndex = index) = [] := by
            refine List.filter_eq_nil_iff.mpr fun t ht => ?_
            obtain ⟨j, r, _, hmem⟩ := mem_planTargets ht
            have := (mem_recordTargets hsize hmem).1
            simp only [decide_eq_true_eq]
            omega
          simp [hnone]
      | succ k =>
          have hshift : index + ((k + 1 : Nat) : Int) = index + 1 + (k : Nat) := by
            push_cast
            ring
          rw [hshift, if_neg (by omega), List.nil_append]
          exact ih h

/-! ## The tally -/

/-- Count one target. -/
def LaneTotals.count (totals : LaneTotals) (target : FormulaicTarget) : LaneTotals :=
  totals.add target.laneIndex 1 target.batchCount

/-- The number of targets in each lane, and of their rows. -/
def LaneTotals.ofTargets (lanes : List LaneRange) (targets : List FormulaicTarget) :
    LaneTotals where
  targetCounts := (List.range lanes.length).map fun k : Nat =>
    ((targets.filter (·.laneIndex = (k : Int))).length : Int)
  rowCounts := (List.range lanes.length).map fun k : Nat =>
    ((targets.filter (·.laneIndex = (k : Int))).map FormulaicTarget.batchCount).sum

theorem modify_add_zero (xs : List Int) (i : Nat) : xs.modify i (· + 0) = xs := by
  refine List.ext_getElem? fun j => ?_
  rw [List.getElem?_modify]
  split <;> simp

theorem LaneTotals.add_zero (totals : LaneTotals) (laneIndex : Int) :
    totals.add laneIndex 0 0 = totals := by
  ext1
  · exact modify_add_zero _ _
  · exact modify_add_zero _ _

theorem LaneTotals.add_add (totals : LaneTotals) (laneIndex m n m' n' : Int) :
    (totals.add laneIndex m n).add laneIndex m' n' =
      totals.add laneIndex (m + m') (n + n') := by
  ext1
  · simp [add, List.modify_modify_eq, Function.comp_def, add_assoc]
  · simp [add, List.modify_modify_eq, Function.comp_def, add_assoc]

/-- Counting targets of one lane adds their number and their rows to it. -/
theorem foldl_count_of_lane {laneIndex : Int} {targets : List FormulaicTarget}
    (h : ∀ target ∈ targets, target.laneIndex = laneIndex) (totals : LaneTotals) :
    targets.foldl LaneTotals.count totals =
      totals.add laneIndex targets.length (targets.map FormulaicTarget.batchCount).sum := by
  induction targets generalizing totals with
  | nil => exact (totals.add_zero laneIndex).symm
  | cons target rest ih =>
      rw [List.foldl_cons, ih fun t ht => h t (List.mem_cons_of_mem target ht), LaneTotals.count,
        h target List.mem_cons_self, LaneTotals.add_add, List.map_cons, List.sum_cons,
        List.length_cons, Nat.cast_succ, add_comm (rest.length : Int) 1]

theorem accountLane_eq {size : Int} (hsize : 0 < size) (index : Int) (record : ScheduleRecord)
    (totals : LaneTotals) (lane : LaneRange) :
    accountLane size record totals lane =
      (laneTargets size index record lane.firstTIndex lane).foldl LaneTotals.count totals := by
  have hrows : ((laneTargets size index record lane.firstTIndex lane).map
      FormulaicTarget.batchCount).sum =
      max 0 (min record.tIndexCount lane.tIndexStopExclusive - lane.firstTIndex) := by
    rw [laneTargets, List.map_map, ← Batches.sum_cut hsize]
    rfl
  have hlane : ∀ target ∈ laneTargets size index record lane.firstTIndex lane,
      target.laneIndex = lane.laneIndex := by
    intro target htarget
    obtain ⟨batch, _, rfl⟩ := List.mem_map.mp htarget
    rfl
  rw [foldl_count_of_lane hlane, hrows, laneTargets, List.length_map, Batches.length_cut]
  unfold accountLane
  by_cases hactive : lane.firstTIndex < min record.tIndexCount lane.tIndexStopExclusive
  · have hpos : 0 < min record.tIndexCount lane.tIndexStopExclusive - lane.firstTIndex := by omega
    have hceil : 0 ≤ (min record.tIndexCount lane.tIndexStopExclusive - lane.firstTIndex + size - 1)
        / size := Int.ediv_nonneg (by omega) hsize.le
    rw [max_eq_right hpos.le, if_pos hpos.ne', Batches.count, Int.toNat_of_nonneg hceil]
  · rw [max_eq_left (by omega), if_neg (by simp), Batches.count_eq_zero hsize (by omega)]
    exact (totals.add_zero _).symm

/-- **The closed form is the tally of the targets.** -/
theorem foldl_accountRecord {size : Int} (hsize : 0 < size) (lanes : List LaneRange) (index : Int)
    (records : List ScheduleRecord) (totals : LaneTotals) :
    records.foldl (accountRecord size lanes) totals =
      (planTargets size lanes index records).foldl LaneTotals.count totals := by
  induction records generalizing index totals with
  | nil => rfl
  | cons record rest ih =>
      have hrecord : accountRecord size lanes totals record =
          (recordTargets size lanes index record).foldl LaneTotals.count totals := by
        rw [recordTargets, List.foldl_flatMap, accountRecord]
        congr 1
        funext acc lane
        exact accountLane_eq hsize index record acc lane
      rw [List.foldl_cons, planTargets, List.foldl_append, hrecord]
      exact ih (index + 1) _

theorem modify_map_range (n : Nat) (f : Nat → Int) (i : Nat) (x : Int) :
    ((List.range n).map f).modify i (· + x) =
      (List.range n).map fun k => f k + if i = k then x else 0 := by
  refine List.ext_getElem? fun k => ?_
  rw [List.getElem?_modify, List.getElem?_map, List.getElem?_map]
  by_cases hk : k < n
  · rw [List.getElem?_range hk]
    by_cases hi : i = k
    · simp [hi]
    · simp [hi]
  · rw [List.getElem?_eq_none (by simpa using hk)]
    rfl

/-- Counting from nothing is counting lane by lane. -/
theorem foldl_count_zero {lanes : List LaneRange} {targets : List FormulaicTarget}
    (h : ∀ target ∈ targets, 0 ≤ target.laneIndex) :
    targets.foldl LaneTotals.count (LaneTotals.zero lanes) =
      LaneTotals.ofTargets lanes targets := by
  induction targets using List.reverseRecOn with
  | nil =>
      have hnil : List.replicate lanes.length (0 : Int) =
          (List.range lanes.length).map fun _ => 0 := by
        rw [List.map_const', List.length_range]
      ext1
      · exact hnil
      · exact hnil
  | append_singleton targets target ih =>
      have hnonneg := h target (by simp)
      have hlane : ∀ k : Nat, target.laneIndex.toNat = k ↔ target.laneIndex = (k : Int) := by
        intro k
        omega
      rw [List.foldl_append, ih fun t ht => h t (by simp [ht]), List.foldl_cons, List.foldl_nil]
      -- only the target's own lane moves
      ext1
      · refine (modify_map_range _ _ _ _).trans (List.map_congr_left fun k _ => ?_)
        rw [List.filter_append]
        by_cases hk : target.laneIndex = (k : Int)
        · simp [hk]
        · simp [hlane, hk]
      · refine (modify_map_range _ _ _ _).trans (List.map_congr_left fun k _ => ?_)
        rw [List.filter_append]
        by_cases hk : target.laneIndex = (k : Int)
        · simp [hk]
        · simp [hlane, hk]

theorem sum_modify {xs : List Int} {i : Nat} (hi : i < xs.length) (x : Int) :
    (xs.modify i (· + x)).sum = xs.sum + x := by
  induction xs generalizing i with
  | nil => cases hi
  | cons y ys ih =>
      cases i with
      | zero =>
          simp only [List.modify_zero_cons, List.sum_cons]
          ring
      | succ i =>
          rw [List.modify_succ_cons, List.sum_cons, List.sum_cons, ih (Nat.lt_of_succ_lt_succ hi)]
          ring

/-- The targets of a list name lanes that exist. -/
def InLanes (lanes : List LaneRange) (targets : List FormulaicTarget) : Prop :=
  ∀ target ∈ targets, 0 ≤ target.laneIndex ∧ target.laneIndex < lanes.length

/-- The counts of all lanes together count the targets and their rows. -/
theorem sum_ofTargets {lanes : List LaneRange} {targets : List FormulaicTarget}
    (h : InLanes lanes targets) :
    (LaneTotals.ofTargets lanes targets).targetCounts.sum = targets.length ∧
      (LaneTotals.ofTargets lanes targets).rowCounts.sum =
        (targets.map FormulaicTarget.batchCount).sum := by
  rw [← foldl_count_zero fun target htarget => (h target htarget).1]
  induction targets using List.reverseRecOn with
  | nil => simp [LaneTotals.zero]
  | append_singleton targets target ih =>
      obtain ⟨hlow, hhigh⟩ := h target (by simp)
      have hlengths : targets.foldl LaneTotals.count (LaneTotals.zero lanes) =
          LaneTotals.ofTargets lanes targets :=
        foldl_count_zero fun t ht => (h t (List.mem_append_left [target] ht)).1
      have hlane : target.laneIndex.toNat < lanes.length := by omega
      obtain ⟨hcounts, hrows⟩ := ih fun t ht => h t (by simp [ht])
      rw [List.foldl_append, List.foldl_cons, List.foldl_nil]
      constructor
      · rw [LaneTotals.count, LaneTotals.add, hlengths,
          sum_modify (by simpa [LaneTotals.ofTargets] using hlane), ← hlengths, hcounts]
        simp
      · rw [LaneTotals.count, LaneTotals.add, hlengths,
          sum_modify (by simpa [LaneTotals.ofTargets] using hlane), ← hlengths, hrows]
        simp

/-! ## What an accepted plan covers -/

theorem Tiled.inLanes {size : Int} {lanes : List LaneRange} {records : List ScheduleRecord}
    (h : Tiled size lanes records) (index : Int) :
    InLanes lanes (planTargets size lanes index records) := by
  intro target htarget
  obtain ⟨stop, _, htiles, _⟩ := h.tiles
  obtain ⟨_, record, _, hmem⟩ := mem_planTargets htarget
  obtain ⟨_, _, _, _, _, lane, hlane, hindex, _⟩ := mem_recordTargets h.size_pos hmem
  obtain ⟨k, hk, hlaneIndex, _⟩ := htiles.of_mem hlane
  have hlt := (List.getElem?_eq_some_iff.mp hk).1
  exact ⟨by omega, by omega⟩

/-- Every target of a plan fits its packed record. -/
theorem Tiled.words {size : Int} {lanes : List LaneRange} {records : List ScheduleRecord}
    (h : Tiled size lanes records) {index : Int} {target : FormulaicTarget}
    (htarget : target ∈ planTargets size lanes index records) :
    index ≤ target.executionQIndex ∧ target.executionQIndex < index + records.length ∧
      (0 ≤ target.q ∧ target.q < 2 ^ 32) ∧
      (0 ≤ target.laneIndex ∧ target.laneIndex < 2 ^ 32) ∧
      (0 ≤ target.firstTIndex ∧ target.firstTIndex < 2 ^ 32) ∧
      (0 ≤ target.tIndexStopExclusive ∧ target.tIndexStopExclusive < 2 ^ 32) ∧
      (0 < target.batchCount ∧ target.batchCount < 2 ^ 32) := by
  obtain ⟨stop, _, htiles, _⟩ := h.tiles
  obtain ⟨k, record, hk, hmem⟩ := mem_planTargets htarget
  obtain ⟨hq, hqeq, hlt, hstop, _, lane, hlane, hindex, hfirst, _⟩ :=
    mem_recordTargets h.size_pos hmem
  obtain ⟨j, _, hlaneIndex, hstart⟩ := htiles.of_mem hlane
  have hklt := (List.getElem?_eq_some_iff.mp hk).1
  have hword := record.tIndexCount_word
  have hcount : target.batchCount = target.tIndexStopExclusive - target.firstTIndex := rfl
  exact ⟨by omega, by omega, hqeq ▸ record.q_word, ⟨by omega, by omega⟩, ⟨by omega, by omega⟩,
    ⟨by omega, by omega⟩, by omega, by omega⟩

/-- The targets of a plan have as many rows as its moduli have ordinates. -/
theorem sum_batchCount {size : Int} {lanes : List LaneRange} {records : List ScheduleRecord}
    (h : Tiled size lanes records) (index : Int) :
    ((planTargets size lanes index records).map FormulaicTarget.batchCount).sum =
      (records.map ScheduleRecord.tIndexCount).sum := by
  obtain ⟨stop, hpos, htiles, hcovers⟩ := h.tiles
  induction records generalizing index with
  | nil => rfl
  | cons record rest ih =>
      have hspans : (recordTargets size lanes index record).map FormulaicTarget.span =
          Batches.cut size 0 record.tIndexCount :=
        map_span_recordTargets h.size_pos htiles (dvd_zero size)
          (hcovers record List.mem_cons_self)
      have hrecord : ((recordTargets size lanes index record).map
          FormulaicTarget.batchCount).sum = record.tIndexCount := by
        have hsum : ((Batches.cut size 0 record.tIndexCount).map
            fun batch => batch.2 - batch.1).sum = max 0 (record.tIndexCount - 0) :=
          Batches.sum_cut h.size_pos
        rw [← hspans, List.map_map, sub_zero, max_eq_right record.tIndexCount_word.1] at hsum
        exact hsum
      have hrest := ih ⟨h.size_pos, h.size_le, stop, hpos, htiles,
        fun r hr => hcovers r (List.mem_cons_of_mem record hr)⟩ (index + 1)
        fun r hr => hcovers r (List.mem_cons_of_mem record hr)
      rw [planTargets, List.map_append, List.sum_append, hrecord, hrest, List.map_cons,
        List.sum_cons]

theorem sum_tIndexCount_le (records : List ScheduleRecord) :
    (records.map ScheduleRecord.tIndexCount).sum ≤ records.length * 2 ^ 32 := by
  induction records with
  | nil => simp
  | cons record rest ih =>
      have hword := record.tIndexCount_word
      rw [List.map_cons, List.sum_cons, List.length_cons]
      push_cast
      omega

/-- A tally of nonempty targets stays below the rows of all of them. -/
theorem ofTargets_le (lanes : List LaneRange) {targets : List FormulaicTarget}
    (h : ∀ target ∈ targets, 0 < target.batchCount) :
    (targets.length : Int) ≤ (targets.map FormulaicTarget.batchCount).sum ∧
      (∀ n ∈ (LaneTotals.ofTargets lanes targets).targetCounts, 0 ≤ n ∧
        n ≤ (targets.map FormulaicTarget.batchCount).sum) ∧
      ∀ n ∈ (LaneTotals.ofTargets lanes targets).rowCounts, 0 ≤ n ∧
        n ≤ (targets.map FormulaicTarget.batchCount).sum := by
  have hlength : (targets.length : Int) ≤ (targets.map FormulaicTarget.batchCount).sum := by
    clear lanes
    induction targets with
    | nil => simp
    | cons target rest ih =>
        have hrest := ih fun t ht => h t (List.mem_cons_of_mem target ht)
        have htarget := h target List.mem_cons_self
        rw [List.map_cons, List.sum_cons, List.length_cons]
        push_cast
        omega
  refine ⟨hlength, fun n hn => ?_, fun n hn => ?_⟩
  · obtain ⟨k, _, rfl⟩ := List.mem_map.mp hn
    have hfilter := List.length_filter_le (·.laneIndex = (k : Int)) targets
    exact ⟨Int.natCast_nonneg _, le_trans (by exact_mod_cast hfilter) hlength⟩
  · obtain ⟨k, _, rfl⟩ := List.mem_map.mp hn
    have hnonneg : ∀ x ∈ targets.map FormulaicTarget.batchCount, 0 ≤ x := by
      intro x hx
      obtain ⟨target, htarget, rfl⟩ := List.mem_map.mp hx
      exact (h target htarget).le
    have hsublist := (List.filter_sublist (p := (·.laneIndex = (k : Int))) (l := targets)).map
      FormulaicTarget.batchCount
    exact ⟨List.sum_nonneg fun x hx => hnonneg x (hsublist.subset hx),
      hsublist.sum_le_sum hnonneg⟩

/-- **The sequence of targets covers the plan exactly.** -/
structure ExactCoverage (schedule : ParsedScheduleManifest) (lanes : List LaneRange)
    (size start stop : Int) (targets : List FormulaicTarget) : Prop where
  /-- The moduli come one after another, in execution order. -/
  inOrder : targets = (List.range (stop - start).toNat).flatMap fun k : Nat =>
    targets.filter (·.executionQIndex = start + (k : Int))
  /-- The targets of one modulus partition its ordinates, with as few targets as possible. -/
  modulus : ∀ (i : Nat) (record : ScheduleRecord), start ≤ (i : Int) → (i : Int) < stop →
    schedule.executionRecords[i]? = some record →
    (∀ target ∈ targets.filter (·.executionQIndex = (i : Int)), target.q = record.q) ∧
    Intervals.Abutting FormulaicTarget.firstTIndex (·.tIndexStopExclusive - 1) 0
      (targets.filter (·.executionQIndex = (i : Int))) record.tIndexCount ∧
    ((targets.filter (·.executionQIndex = (i : Int))).length : Int) =
      (record.tIndexCount + size - 1) / size
  /-- Every target is a nonempty batch inside one lane. -/
  batch : ∀ target ∈ targets, target.firstTIndex < target.tIndexStopExclusive ∧
    target.batchCount ≤ size ∧ ∃ lane, lanes[target.laneIndex.toNat]? = some lane ∧
      lane.firstTIndex ≤ target.firstTIndex ∧
      target.tIndexStopExclusive ≤ lane.tIndexStopExclusive

theorem planTargets_inOrder {size : Int} (hsize : 0 < size) (lanes : List LaneRange) (index : Int)
    (records : List ScheduleRecord) :
    planTargets size lanes index records = (List.range records.length).flatMap fun k : Nat =>
      (planTargets size lanes index records).filter (·.executionQIndex = index + (k : Int)) := by
  have hflat : ∀ (i : Int) (rs : List ScheduleRecord), planTargets size lanes i rs =
      (List.range rs.length).flatMap fun k : Nat =>
        (rs[k]?.map (recordTargets size lanes (i + (k : Int)))).getD [] := by
    intro i rs
    induction rs generalizing i with
    | nil => rfl
    | cons record rest ih =>
        rw [planTargets, ih, List.length_cons, List.range_succ_eq_map, List.flatMap_cons,
          List.flatMap_map]
        congr 1
        · simp
        · refine List.flatMap_congr fun k _ => ?_
          rw [List.getElem?_cons_succ, Nat.cast_succ, add_comm (k : Int) 1, ← add_assoc]
  rw [hflat]
  refine List.flatMap_congr fun k hk => ?_
  obtain ⟨record, hrecord⟩ : ∃ record, records[k]? = some record :=
    ⟨_, List.getElem?_eq_getElem (List.mem_range.mp hk)⟩
  rw [← hflat, filter_planTargets hsize hrecord, hrecord]
  rfl

theorem Tiled.exactCoverage {schedule : ParsedScheduleManifest} {lanes : List LaneRange}
    {size start stop : Int} (hstart : 0 ≤ start) (hlt : start < stop)
    (hstop : stop ≤ schedule.executionRecords.length)
    (h : Tiled size lanes (schedule.slice start stop)) :
    ExactCoverage schedule lanes size start stop
      (planTargets size lanes start (schedule.slice start stop)) := by
  obtain ⟨last, hpos, htiles, hcovers⟩ := h.tiles
  have hlength : (schedule.slice start stop).length = (stop - start).toNat := by
    unfold ParsedScheduleManifest.slice
    rw [List.length_drop, List.length_take]
    omega
  refine ⟨?_, fun i record hi hiStop hrecord => ?_, fun target htarget => ?_⟩
  · rw [← hlength]
    exact planTargets_inOrder h.size_pos lanes start _
  · have hget : (schedule.slice start stop)[i - start.toNat]? = some record := by
      unfold ParsedScheduleManifest.slice
      rw [List.getElem?_drop, List.getElem?_take, if_pos (by omega), ← hrecord]
      congr 1
      omega
    have hindex : (i : Int) = start + ((i - start.toNat : Nat) : Int) := by omega
    rw [hindex, filter_planTargets h.size_pos hget]
    have hspans : (recordTargets size lanes (start + ((i - start.toNat : Nat) : Int)) record).map
        FormulaicTarget.span = Batches.cut size 0 record.tIndexCount :=
      map_span_recordTargets h.size_pos htiles (dvd_zero size)
        (hcovers record (List.mem_of_getElem? hget))
    have hword := record.tIndexCount_word
    refine ⟨fun target htarget => (mem_recordTargets h.size_pos htarget).2.1, ?_, ?_⟩
    · have habutting := Batches.abutting_cut h.size_pos hword.1
      rw [← hspans, Intervals.abutting_map] at habutting
      exact habutting
    · have hlen := congrArg List.length hspans
      rw [List.length_map, Batches.length_cut] at hlen
      have hnonneg : 0 ≤ (record.tIndexCount + size - 1) / size :=
        Int.ediv_nonneg (by have := h.size_pos; omega) h.size_pos.le
      rw [hlen, Batches.count, sub_zero, Int.toNat_of_nonneg hnonneg]
  · obtain ⟨_, record, _, hmem⟩ := mem_planTargets htarget
    obtain ⟨_, _, hbatch, _, hcount, lane, hlane, hlaneIndex, hfirst, hend⟩ :=
      mem_recordTargets h.size_pos hmem
    obtain ⟨k, hk, hkIndex, _⟩ := htiles.of_mem hlane
    have hkeq : target.laneIndex.toNat = k := by omega
    exact ⟨hbatch, hcount, lane, hkeq ▸ hk, hfirst, hend⟩

end AttestedCompute.Dirichlet.Formulaic
