import AttestedCompute.Dirichlet.FormulaicCursor

/-!
# What a formulaic cursor covers

A cursor can be finished exactly when it has accepted the targets of its plan, in order and
each once, whatever else was tried on it. The invariant of every history is that the accepted
targets followed by the targets still to come are the targets of the plan.
-/

namespace AttestedCompute.Dirichlet.Formulaic

open Fallible

/-! ## The targets still to come -/

/-- The targets of one modulus from a position on. -/
def currentTargets (size : Int) (index : Int) (record : ScheduleRecord) (lanes : List LaneRange)
    (nextT : Int) : List FormulaicTarget :=
  match lanes with
  | [] => []
  | lane :: later =>
      laneTargets size index record nextT lane ++ recordTargets size later index record

/-- The targets from a position on; the list is of the records from the position on. -/
def remainingFrom (size : Int) (lanes : List LaneRange) : List ScheduleRecord → Position →
    List FormulaicTarget
  | [], _ => []
  | record :: rest, position =>
      currentTargets size position.qIndex record (lanes.drop position.laneIndex) position.nextT ++
        planTargets size lanes (position.qIndex + 1) rest

theorem currentTargets_start (size index : Int) (record : ScheduleRecord) {lane : LaneRange}
    {later : List LaneRange} :
    currentTargets size index record (lane :: later) lane.firstTIndex =
      recordTargets size (lane :: later) index record := rfl

theorem laneTargets_eq_nil {size index nextT : Int} {record : ScheduleRecord} {lane : LaneRange}
    (hsize : 0 < size) (h : nextT ≥ min record.tIndexCount lane.tIndexStopExclusive) :
    laneTargets size index record nextT lane = [] := by
  rw [laneTargets, Batches.cut_eq_nil hsize h, List.map_nil]

/-- Moving past spent lanes changes nothing of what is to come. It ends in a lane with ordinates
left, or with no lane and no ordinate left. -/
theorem skipLanes_spec {size : Int} (hsize : 0 < size) (index : Int) (record : ScheduleRecord)
    {lanes : List LaneRange} {lane : LaneRange} {later : List LaneRange} {laneIndex : Nat}
    {nextT : Int} (hlanes : lanes.drop laneIndex = lane :: later) {k : Nat} {start stop : Int}
    (htiles : Tiles size k start (lane :: later) stop) (hcovers : record.tIndexCount ≤ stop)
    {laneIndex' : Nat} {nextT' : Int}
    (h : skipLanes record.tIndexCount (lane :: later) laneIndex nextT = (laneIndex', nextT')) :
    currentTargets size index record (lane :: later) nextT =
        currentTargets size index record (lanes.drop laneIndex') nextT' ∧
      (record.tIndexCount ≤ nextT' ∧ currentTargets size index record (lane :: later) nextT = [] ∨
        ∃ found rest, lanes.drop laneIndex' = found :: rest ∧
          nextT' < min record.tIndexCount found.tIndexStopExclusive) := by
  induction later generalizing lane laneIndex nextT k start with
  | nil =>
      have hstop : lane.tIndexStopExclusive = stop := htiles.2.2.2.2
      by_cases hspent : nextT ≥ min record.tIndexCount lane.tIndexStopExclusive
      · have hdrop : lanes.drop (laneIndex + 1) = [] := by
          rw [← List.drop_drop, hlanes]
          rfl
        have hnil : currentTargets size index record [lane] nextT = [] := by
          simp [currentTargets, laneTargets_eq_nil hsize hspent, recordTargets]
        simp only [skipLanes, if_pos hspent, Prod.mk.injEq] at h
        obtain ⟨rfl, rfl⟩ := h
        rw [hdrop, hnil]
        exact ⟨rfl, Or.inl ⟨by omega, rfl⟩⟩
      · simp only [skipLanes, if_neg hspent, Prod.mk.injEq] at h
        obtain ⟨rfl, rfl⟩ := h
        rw [hlanes]
        exact ⟨rfl, Or.inr ⟨lane, [], rfl, not_le.mp hspent⟩⟩
  | cons next later ih =>
      by_cases hspent : nextT ≥ min record.tIndexCount lane.tIndexStopExclusive
      · have hdrop : lanes.drop (laneIndex + 1) = next :: later := by
          rw [← List.drop_drop, hlanes]
          rfl
        have hskip : currentTargets size index record (lane :: next :: later) nextT =
            currentTargets size index record (next :: later) next.firstTIndex := by
          rw [currentTargets, laneTargets_eq_nil hsize hspent, List.nil_append,
            currentTargets_start]
        rw [skipLanes, if_pos hspent] at h
        rw [hskip]
        exact ih hdrop htiles.2.2.2.2 h
      · simp only [skipLanes, if_neg hspent, Prod.mk.injEq] at h
        obtain ⟨rfl, rfl⟩ := h
        rw [hlanes]
        exact ⟨rfl, Or.inr ⟨lane, next :: later, rfl, not_le.mp hspent⟩⟩

theorem Tiles.drop {size : Int} {index : Nat} {start stop : Int} {lanes : List LaneRange}
    (h : Tiles size index start lanes stop) (n : Nat) :
    ∃ index' start', Tiles size index' start' (lanes.drop n) stop := by
  induction n generalizing index start lanes with
  | zero => exact ⟨index, start, h⟩
  | succ n ih =>
      cases lanes with
      | nil => exact ⟨index, start, h⟩
      | cons lane rest => exact ih h.2.2.2.2

theorem Tiled.lanes_ne_nil {size : Int} {lanes : List LaneRange} {records : List ScheduleRecord}
    (h : Tiled size lanes records) : lanes ≠ [] := by
  rintro rfl
  obtain ⟨stop, hpos, htiles, _⟩ := h.tiles
  have heq : 0 = stop := htiles
  omega

/-- At the start of a modulus all of its targets and all later ones are to come. -/
theorem remainingFrom_start {size : Int} {lanes : List LaneRange} {records : List ScheduleRecord}
    (h : Tiled size lanes records) (qIndex : Nat) :
    remainingFrom size lanes records ⟨qIndex, 0, 0⟩ = planTargets size lanes qIndex records := by
  cases records with
  | nil => rfl
  | cons record rest =>
      obtain ⟨lane, later, rfl⟩ := List.exists_cons_of_ne_nil h.lanes_ne_nil
      obtain ⟨stop, _, htiles, _⟩ := h.tiles
      have hzero : lane.firstTIndex = 0 := htiles.2.1
      rw [remainingFrom, planTargets, List.drop_zero, ← hzero, currentTargets_start]

/-- Moving past spent moduli changes nothing of what is to come, and ends either past the last
modulus or at an ordinate that its modulus and its lane both have. -/
theorem skipRecords_spec {size : Int} {lanes : List LaneRange} {records : List ScheduleRecord}
    (htiled : Tiled size lanes records) {position : Position}
    (hlane : records ≠ [] → position.laneIndex < lanes.length) :
    ∃ done rest, records = done ++ rest ∧
      (skipRecords lanes records position).qIndex = position.qIndex + done.length ∧
      remainingFrom size lanes rest (skipRecords lanes records position) =
        remainingFrom size lanes records position ∧
      (rest = [] ∨ ∃ record more lane later, rest = record :: more ∧
        lanes.drop (skipRecords lanes records position).laneIndex = lane :: later ∧
        (skipRecords lanes records position).nextT <
          min record.tIndexCount lane.tIndexStopExclusive) := by
  induction records generalizing position with
  | nil => exact ⟨[], [], rfl, rfl, rfl, Or.inl rfl⟩
  | cons record rest ih =>
      obtain ⟨stop, hpos, htiles, hcovers⟩ := htiled.tiles
      have hrest : Tiled size lanes rest := ⟨htiled.size_pos, htiled.size_le, stop, hpos, htiles,
        fun r hr => hcovers r (List.mem_cons_of_mem record hr)⟩
      obtain ⟨lane, later, hdrop⟩ : ∃ lane later, lanes.drop position.laneIndex = lane :: later :=
        List.exists_cons_of_ne_nil (by
          rw [Ne, List.drop_eq_nil_iff, not_le]
          exact hlane (List.cons_ne_nil record rest))
      obtain ⟨_, _, htail⟩ := htiles.drop position.laneIndex
      rw [hdrop] at htail
      obtain ⟨laneIndex, nextT, hskip⟩ : ∃ laneIndex nextT, skipLanes record.tIndexCount
          (lane :: later) position.laneIndex position.nextT = (laneIndex, nextT) := ⟨_, _, rfl⟩
      obtain ⟨hsame, hend⟩ := skipLanes_spec htiled.size_pos position.qIndex record hdrop htail
        (hcovers record List.mem_cons_self) hskip
      rw [skipRecords, hdrop, hskip]
      dsimp only
      by_cases hlive : nextT < record.tIndexCount
      · rw [if_pos hlive]
        refine ⟨[], record :: rest, rfl, rfl, ?_, Or.inr ?_⟩
        · simp only [remainingFrom]
          rw [hdrop, hsame]
        · rcases hend with ⟨hspent, _⟩ | ⟨found, more, hfound, hlt⟩
          · omega
          · exact ⟨record, rest, found, more, rfl, hfound, hlt⟩
      · -- the modulus is spent: the next one starts in the first lane
        rw [if_neg hlive]
        have hnil : currentTargets size position.qIndex record (lane :: later) position.nextT = [] := by
          rcases hend with ⟨_, hnil⟩ | ⟨found, more, _, hlt⟩
          · exact hnil
          · omega
        have hnext : remainingFrom size lanes (record :: rest) position =
            remainingFrom size lanes rest ⟨position.qIndex + 1, 0, 0⟩ := by
          rw [remainingFrom, hdrop, hnil, List.nil_append]
          exact (remainingFrom_start hrest (position.qIndex + 1)).symm
        have hfirst : rest ≠ [] → (⟨position.qIndex + 1, 0, 0⟩ : Position).laneIndex < lanes.length :=
          fun _ => (Nat.zero_le _).trans_lt (hlane (List.cons_ne_nil record rest))
        obtain ⟨done, rest', hsplit, hindex, hremaining, hfinal⟩ := ih hrest hfirst
        refine ⟨record :: done, rest', by rw [hsplit]; rfl, ?_, hremaining.trans hnext.symm, hfinal⟩
        rw [hindex, List.length_cons]
        dsimp only
        omega

/-! ## The cursor and what it has still to hand out -/

namespace FormulaicQMajorCursor

/-- The targets the cursor has still to hand out. -/
def remaining (c : FormulaicQMajorCursor) : List FormulaicTarget :=
  remainingFrom c.maximumBatchCount c.lanes c.pending c.position

/-- All targets of the plan the cursor was made for. -/
def planned (c : FormulaicQMajorCursor) : List FormulaicTarget :=
  planTargets c.maximumBatchCount c.lanes c.startQIndex
    (c.schedule.slice c.startQIndex c.stopQIndex)

/-- A cursor for an accepted plan that stands inside it. -/
structure Standing (c : FormulaicQMajorCursor) : Prop where
  tiled : Tiled c.maximumBatchCount c.lanes (c.schedule.slice c.startQIndex c.stopQIndex)
  start_nonneg : 0 ≤ c.startQIndex
  start_le : c.startQIndex ≤ c.position.qIndex
  le_stop : c.position.qIndex ≤ c.stopQIndex
  stop_le : c.stopQIndex ≤ c.schedule.executionRecords.length
  lane : (c.position.qIndex : Int) < c.stopQIndex → c.position.laneIndex < c.lanes.length

/-- The cursor stands at an ordinate it has to hand out, or has none left. -/
structure AtTarget (c : FormulaicQMajorCursor) (record : ScheduleRecord)
    (more : List ScheduleRecord) (lane : LaneRange) (later : List LaneRange) : Prop where
  pending : c.pending = record :: more
  lanes : c.lanes.drop c.position.laneIndex = lane :: later
  nextT : c.position.nextT < min record.tIndexCount lane.tIndexStopExclusive

variable {c : FormulaicQMajorCursor}

theorem Standing.length_pending (h : c.Standing) :
    (c.pending.length : Int) = c.stopQIndex - c.position.qIndex := by
  have hstop := h.stop_le
  have hle := h.le_stop
  have hstart := h.start_le
  have hnonneg := h.start_nonneg
  unfold pending ParsedScheduleManifest.slice
  rw [List.length_drop, List.length_take]
  omega

theorem Standing.tiled_pending (h : c.Standing) :
    Tiled c.maximumBatchCount c.lanes c.pending := by
  obtain ⟨stop, hpos, htiles, hcovers⟩ := h.tiled.tiles
  refine ⟨h.tiled.size_pos, h.tiled.size_le, stop, hpos, htiles, fun record hrecord => ?_⟩
  refine hcovers record ?_
  have hstart := h.start_le
  have hsub : c.pending = (c.schedule.slice c.startQIndex c.stopQIndex).drop
      (c.position.qIndex - c.startQIndex.toNat) := by
    unfold pending ParsedScheduleManifest.slice
    rw [List.drop_drop]
    congr 1
    omega
  rw [hsub] at hrecord
  exact List.mem_of_mem_drop hrecord

/-- **Moving on changes nothing of what is to come.** -/
theorem Standing.advance (h : c.Standing) :
    c.advanceEmptyLanesOrQ.Standing ∧ c.advanceEmptyLanesOrQ.remaining = c.remaining ∧
      ((c.advanceEmptyLanesOrQ.position.qIndex = c.stopQIndex ∧ c.remaining = []) ∨
        ∃ record more lane later, c.advanceEmptyLanesOrQ.AtTarget record more lane later) := by
  have hlength := h.length_pending
  have hstart := h.start_le
  have hstop := h.stop_le
  have hlane : c.pending ≠ [] → c.position.laneIndex < c.lanes.length := by
    intro hne
    have hpos := List.length_pos_iff.mpr hne
    exact h.lane (by omega)
  obtain ⟨done, rest, hsplit, hindex, hremaining, hend⟩ := skipRecords_spec h.tiled_pending hlane
  have hlengths : c.pending.length = done.length + rest.length := by
    rw [hsplit, List.length_append]
  have hpending : c.advanceEmptyLanesOrQ.pending = rest := by
    have hdrop : c.advanceEmptyLanesOrQ.pending = c.pending.drop done.length := by
      unfold pending ParsedScheduleManifest.slice
      rw [List.drop_drop]
      exact congrArg (List.drop · _) hindex
    rw [hdrop, hsplit, List.drop_left]
  have hqIndex : c.advanceEmptyLanesOrQ.position.qIndex = c.position.qIndex + done.length := hindex
  have hsame : c.advanceEmptyLanesOrQ.remaining = c.remaining := by
    rw [remaining, hpending]
    exact hremaining
  refine ⟨⟨h.tiled, h.start_nonneg, ?_, ?_, h.stop_le, ?_⟩, hsame, ?_⟩
  · change c.startQIndex ≤ _
    omega
  · change _ ≤ c.stopQIndex
    omega
  · intro hlt
    change _ < c.stopQIndex at hlt
    rcases hend with rfl | ⟨record, more, lane, later, rfl, hlanes, _⟩
    · rw [List.length_nil] at hlengths
      omega
    · by_contra hge
      have hnil : c.lanes.drop (skipRecords c.lanes c.pending c.position).laneIndex = [] :=
        List.drop_eq_nil_of_le (not_lt.mp hge)
      rw [hnil] at hlanes
      cases hlanes
  · rcases hend with rfl | ⟨record, more, lane, later, rfl, hlanes, hlt⟩
    · refine Or.inl ⟨?_, ?_⟩
      · rw [List.length_nil] at hlengths
        omega
      · rw [← hsame, remaining, hpending]
        rfl
    · exact Or.inr ⟨record, more, lane, later, hpending, hlanes, hlt⟩

/-- The target at a position, and what is left once it is accepted. -/
theorem AtTarget.spec {record : ScheduleRecord} {more : List ScheduleRecord} {lane : LaneRange}
    {later : List LaneRange} (hat : c.AtTarget record more lane later) (h : c.Standing) :
    ∃ target, c.targetAt = .ok (some target) ∧
      ∀ packed, c.remaining = target :: (c.record target packed).remaining := by
  have hlength := h.length_pending
  have hlanes : c.lanes[c.position.laneIndex]? = some lane := by
    rw [← Nat.add_zero c.position.laneIndex, ← List.getElem?_drop, hat.lanes]
    rfl
  have hrecord : c.schedule.executionRecords[c.position.qIndex]? = some record := by
    have hhead : c.pending[0]? = some record := by
      rw [hat.pending]
      rfl
    unfold FormulaicQMajorCursor.pending ParsedScheduleManifest.slice at hhead
    rw [List.getElem?_drop, Int.toNat_natCast, Nat.add_zero, List.getElem?_take] at hhead
    split at hhead
    · exact hhead
    · cases hhead
  have hsize := h.tiled.size_pos
  have hne : ¬ (c.position.qIndex : Int) = c.stopQIndex := by
    intro heq
    rw [hat.pending, List.length_cons] at hlength
    omega
  have hnext := hat.nextT
  refine ⟨⟨c.position.qIndex, record.q, lane.laneIndex, c.position.nextT,
    min (min record.tIndexCount lane.tIndexStopExclusive)
      (c.position.nextT + c.maximumBatchCount)⟩, ?_, fun packed => ?_⟩
  · simp only [targetAt]
    rw [if_neg hne, hlanes]
    dsimp only
    rw [hrecord]
    dsimp only
    rw [if_neg (by omega)]
  · have hpending : ∀ t, (c.record t packed).pending = c.pending := fun _ => rfl
    rw [remaining, remaining, hpending, hat.pending, remainingFrom, remainingFrom, hat.lanes]
    simp only [FormulaicQMajorCursor.record, hat.lanes, currentTargets]
    rw [laneTargets, Batches.cut_eq_cons hsize hnext]
    rfl

/-! ## One call -/

theorem Standing.record (h : c.Standing) (target : FormulaicTarget) (packed : Bytes) :
    (c.record target packed).Standing :=
  ⟨h.tiled, h.start_nonneg, h.start_le, h.le_stop, h.stop_le, h.lane⟩

/-- **The next target is the head of what is to come.** -/
theorem Standing.expectedTarget (h : c.Standing) (hopen : c.finished = false) :
    c.expectedTarget.1.Standing ∧ c.expectedTarget.1.remaining = c.remaining ∧
      c.expectedTarget.2 = .ok c.remaining.head? ∧
      ∀ target rest packed, c.remaining = target :: rest →
        (c.expectedTarget.1.record target packed).remaining = rest := by
  obtain ⟨hstanding, hsame, hend⟩ := h.advance
  have hasked : c.expectedTarget = (c.advanceEmptyLanesOrQ, c.advanceEmptyLanesOrQ.targetAt) := by
    simp [FormulaicQMajorCursor.expectedTarget, hopen]
  rw [hasked]
  refine ⟨hstanding, hsame, ?_⟩
  rcases hend with ⟨hstop, hnil⟩ | ⟨record, more, lane, later, hat⟩
  · rw [hnil]
    refine ⟨?_, fun target rest packed hcons => (by cases hcons)⟩
    exact if_pos hstop
  · obtain ⟨target, htarget, hrest⟩ := hat.spec hstanding
    have hhead : c.remaining = target ::
        (c.advanceEmptyLanesOrQ.record target []).remaining := hsame ▸ hrest []
    refine ⟨by rw [hhead]; exact htarget, fun target' rest packed hcons => ?_⟩
    have hcons' := hsame.trans hcons
    rw [hrest packed] at hcons'
    injection hcons' with htarget' hrest'
    rw [← htarget']
    exact hrest'

/-- What a call that is refused may change: where the cursor stands. -/
structure Refused (c c' : FormulaicQMajorCursor) : Prop where
  moved : c' = { c with position := c'.position }
  standing : c.Standing → c'.Standing
  remaining : c.Standing → c'.remaining = c.remaining

theorem Refused.refl (c : FormulaicQMajorCursor) : Refused c c :=
  ⟨rfl, fun h => h, fun _ => rfl⟩

/-- Asking for the next target is like a refused call. -/
theorem refused_expectedTarget (c : FormulaicQMajorCursor) : Refused c c.expectedTarget.1 := by
  cases hopen : c.finished with
  | true =>
      have hself : c.expectedTarget.1 = c := by simp [FormulaicQMajorCursor.expectedTarget, hopen]
      rw [hself]
      exact Refused.refl c
  | false =>
      have hasked : c.expectedTarget.1 = c.advanceEmptyLanesOrQ := by
        simp [FormulaicQMajorCursor.expectedTarget, hopen]
      exact ⟨by rw [hasked]; rfl, fun h => (h.expectedTarget hopen).1,
        fun h => (h.expectedTarget hopen).2.1⟩

/-- **What `accept` does.** It refuses, or the offer is the next target and is recorded. -/
theorem accept_cases (c : FormulaicQMajorCursor) (offer : Offer) :
    (∃ e, c.accept offer = (c.expectedTarget.1, .error e)) ∨
      ∃ target packed, c.finished = false ∧ c.expectedTarget.2 = .ok (some target) ∧
        offer.observed = .ok target ∧ target.packed = .ok packed ∧
        c.accept offer = (c.expectedTarget.1.record target packed, .ok ()) := by
  have hopen : ∀ x, c.expectedTarget.2 = .ok x → c.finished = false := by
    intro x hx
    cases hfinished : c.finished with
    | false => rfl
    | true => simp [FormulaicQMajorCursor.expectedTarget, hfinished] at hx
  unfold accept
  rcases hasked : c.expectedTarget with ⟨c', result⟩
  rcases result with e | _ | expected
  · exact Or.inl ⟨e, rfl⟩
  · exact Or.inl ⟨_, rfl⟩
  · have hfinished := hopen (some expected) (by rw [hasked])
    rcases hobserved : offer.observed with e | observed
    · exact Or.inl ⟨e, rfl⟩
    by_cases hdiffer : observed = expected
    · rcases hpacked : expected.packed with e | packed
      · exact Or.inl ⟨e, by simp [hdiffer, hpacked]⟩
      · exact Or.inr ⟨expected, packed, hfinished, rfl, by rw [hdiffer], hpacked,
          by simp [hdiffer, hpacked]⟩
    · exact Or.inl ⟨_, by simp [hdiffer]; rfl⟩

/-- **What `finish` does.** It refuses, or there is no next target, the totals agree and the
cursor is closed. -/
theorem finish_cases (c : FormulaicQMajorCursor) :
    (∃ e, c.finish = (c.expectedTarget.1, .error e)) ∨
      ∃ report, c.finished = false ∧ c.expectedTarget.2 = .ok none ∧
        c.finish = ({ c.expectedTarget.1 with finished := true }, .ok report) := by
  unfold finish
  cases hopen : c.finished with
  | true =>
      refine Or.inl ⟨.failed "formulaic cursor was already finalized", ?_⟩
      simp [FormulaicQMajorCursor.expectedTarget, hopen]
  | false =>
      rw [if_neg Bool.false_ne_true]
      rcases hasked : c.expectedTarget with ⟨c', result⟩
      rcases result with e | _ | expected
      · exact Or.inl ⟨e, rfl⟩
      · by_cases hdiffer : c'.totalsDiffer
        · exact Or.inl ⟨_, by simp only [if_pos hdiffer]; rfl⟩
        · rcases hhash : canonicalSha256 c'.session.body with e | hash
          · exact Or.inl ⟨e, by simp only [if_neg hdiffer, hhash]⟩
          · exact Or.inr ⟨_, rfl, rfl, by simp only [if_neg hdiffer, hhash]; rfl⟩
      · exact Or.inl ⟨_, rfl⟩

theorem finish_of_agree {c : FormulaicQMajorCursor} (hopen : c.finished = false)
    (hnone : c.expectedTarget.2 = .ok none) (hagree : ¬ c.expectedTarget.1.totalsDiffer)
    {hash : Bytes} (hhash : canonicalSha256 c.expectedTarget.1.session.body = .ok hash) :
    ∃ report, c.finish.2 = .ok report := by
  unfold finish
  rw [if_neg (by simp [hopen])]
  rcases hasked : c.expectedTarget with ⟨c', result⟩
  rw [hasked] at hnone hagree hhash
  dsimp only at hnone hagree hhash
  subst hnone
  exact ⟨_, by simp only [if_neg hagree, hhash]; rfl⟩

/-! ## Fresh cursors -/

theorem canonicalSha256_isOk {value : Json} :
    (∃ hash, canonicalSha256 value = .ok hash) ↔ Json.fits value = true := by
  rw [← Json.asciiBytes_isOk]
  unfold canonicalSha256
  cases hbytes : Json.asciiBytes value with
  | ok bytes => simp
  | error fault => simp

/-- What an accounting that was not refused says of the targets of its plan. -/
theorem formulaicAccounting_ok {schedule : ParsedScheduleManifest} {lanes : List LaneRange}
    {first : Int} {last : Option Int} {size : Int} {a : FormulaicAccounting}
    (h : formulaicAccounting schedule lanes first last size = .ok a)
    {targets : List FormulaicTarget}
    (htargets : targets = planTargets size lanes a.plan.startExecutionQIndex
      (schedule.slice a.plan.startExecutionQIndex a.plan.stopExecutionQIndex)) :
    a.plan.Accepted schedule lanes first last size ∧ a.perLane = LaneTotals.ofTargets lanes targets ∧
      a.targetCount = targets.length ∧
      a.rowReferenceCount = (targets.map FormulaicTarget.batchCount).sum ∧
      Json.fits a.body = true := by
  simp only [formulaicAccounting, bind_ok, pure_ok, refuseIf_ok] at h
  obtain ⟨plan, hplan, _, _, hash, hhash, rfl⟩ := h
  dsimp only at htargets
  have haccepted := planIdentity_ok hplan
  have hinLanes := haccepted.tiled.inLanes plan.startExecutionQIndex
  have htally := foldl_accountRecord haccepted.tiled.size_pos lanes plan.startExecutionQIndex
    (schedule.slice plan.startExecutionQIndex plan.stopExecutionQIndex) (LaneTotals.zero lanes)
  rw [← htargets] at hinLanes htally
  rw [foldl_count_zero fun t ht => (hinLanes t ht).1] at htally
  obtain ⟨hcounts, hrows⟩ := sum_ofTargets hinLanes
  refine ⟨haccepted, ?_, ?_, ?_, canonicalSha256_isOk.mp ⟨hash, hhash⟩⟩
  · rw [haccepted.lanes_eq]
    exact htally
  · rw [haccepted.lanes_eq, htally]
    exact hcounts
  · rw [haccepted.lanes_eq, htally]
    exact hrows

/-- What a fresh cursor is. -/
structure Fresh (c : FormulaicQMajorCursor) : Prop where
  standing : c.Standing
  remaining : c.remaining = c.planned
  start : c.accounting.plan.startExecutionQIndex = c.startQIndex
  stop : c.accounting.plan.stopExecutionQIndex = c.stopQIndex
  accountedLanes : c.accounting.perLane = LaneTotals.ofTargets c.lanes c.planned
  accountedTargets : c.accounting.targetCount = c.planned.length
  accountedRows : c.accounting.rowReferenceCount = (c.planned.map FormulaicTarget.batchCount).sum
  printed : Json.fits c.accounting.body = true
  targetCount : c.targetCount = 0
  rowReferenceCount : c.rowReferenceCount = 0
  perLane : c.perLane = LaneTotals.zero c.lanes
  finished : c.finished = false

/-- **A cursor starts with all targets of its plan still to come.** -/
theorem init_ok {schedule : ParsedScheduleManifest} {lanes : List LaneRange} {first : Int}
    {last : Option Int} {size : Int} {c : FormulaicQMajorCursor}
    (h : init schedule lanes first last size = .ok c) :
    c.Fresh ∧ formulaicAccounting schedule lanes first last size = .ok c.accounting ∧
      c.schedule = schedule ∧ c.lanes = lanes ∧ c.startQIndex = first ∧
      c.stopQIndex = last.getD schedule.executionRecords.length ∧ c.maximumBatchCount = size := by
  simp only [init, bind_ok, pure_ok] at h
  obtain ⟨a, ha, rfl⟩ := h
  obtain ⟨haccepted, hperLane, htargets, hrows, hprinted⟩ := formulaicAccounting_ok ha rfl
  have hlanes := haccepted.lanes_eq
  have hstart := Int.toNat_of_nonneg haccepted.start_nonneg
  have hlt := haccepted.start_lt_stop
  have hpos := List.length_pos_iff.mpr haccepted.tiled.lanes_ne_nil
  refine ⟨⟨⟨?_, haccepted.start_nonneg, hstart.symm.le, ?_, haccepted.stop_le, fun _ => ?_⟩, ?_,
    rfl, rfl, ?_, ?_, ?_, hprinted, rfl, rfl, rfl, rfl⟩, ha, rfl, hlanes,
    haccepted.start_eq, haccepted.stop_eq, rfl⟩
  · exact hlanes ▸ haccepted.tiled
  · exact hstart.le.trans hlt.le
  · exact hlanes ▸ hpos
  · simp only [FormulaicQMajorCursor.remaining, pending, planned, hlanes, hstart]
    rw [remainingFrom_start haccepted.tiled, hstart]
  · simp only [planned, hlanes]
    exact hperLane
  · simp only [planned, hlanes]
    exact htargets
  · simp only [planned, hlanes]
    exact hrows

/-! ## Histories -/

/-- **The invariant of every history**: what was accepted and what is to come are the plan, and
the totals are those of what was accepted. -/
structure Kept (initial : FormulaicQMajorCursor) (accepted : List FormulaicTarget)
    (c : FormulaicQMajorCursor) : Prop where
  standing : c.Standing
  accounting : c.accounting = initial.accounting
  lanes : c.lanes = initial.lanes
  start : c.startQIndex = initial.startQIndex
  stop : c.stopQIndex = initial.stopQIndex
  plan : accepted ++ c.remaining = initial.planned
  targetCount : c.targetCount = accepted.length
  rowReferenceCount : c.rowReferenceCount = (accepted.map FormulaicTarget.batchCount).sum
  perLane : c.perLane = accepted.foldl LaneTotals.count (LaneTotals.zero initial.lanes)

variable {initial c' : FormulaicQMajorCursor} {accepted : List FormulaicTarget}

theorem kept_init (h : initial.Fresh) : Kept initial [] initial where
  standing := h.standing
  accounting := rfl
  lanes := rfl
  start := rfl
  stop := rfl
  plan := h.remaining
  targetCount := h.targetCount
  rowReferenceCount := h.rowReferenceCount
  perLane := h.perLane

/-- A refused call keeps the invariant. -/
theorem Kept.refused (h : Kept initial accepted c) (hrefused : Refused c c') :
    Kept initial accepted c' := by
  obtain ⟨hmoved, hstanding, hremaining⟩ := hrefused
  refine ⟨hstanding h.standing, ?_, ?_, ?_, ?_, ?_, ?_, ?_, ?_⟩
  · exact hmoved ▸ h.accounting
  · exact hmoved ▸ h.lanes
  · exact hmoved ▸ h.start
  · exact hmoved ▸ h.stop
  · rw [hremaining h.standing]
    exact h.plan
  · exact hmoved ▸ h.targetCount
  · exact hmoved ▸ h.rowReferenceCount
  · exact hmoved ▸ h.perLane

/-- Accepting a target moves it from what is to come to what was accepted. -/
theorem Kept.record (h : Kept initial accepted c) (hopen : c.finished = false)
    {target : FormulaicTarget} (hnext : c.expectedTarget.2 = .ok (some target)) (packed : Bytes) :
    Kept initial (accepted ++ [target]) (c.expectedTarget.1.record target packed) := by
  obtain ⟨hstanding, _, hhead, htail⟩ := h.standing.expectedTarget hopen
  have hasked := h.refused (refused_expectedTarget c)
  obtain ⟨rest, hrest⟩ : ∃ rest, c.remaining = target :: rest := by
    rw [hhead, Except.ok.injEq] at hnext
    cases hremaining : c.remaining with
    | nil => simp [hremaining] at hnext
    | cons t rest =>
        rw [hremaining, List.head?_cons, Option.some.injEq] at hnext
        exact ⟨rest, by rw [hnext]⟩
  refine ⟨hstanding.record target packed, hasked.accounting, hasked.lanes, hasked.start,
    hasked.stop, ?_, ?_, ?_, ?_⟩
  · rw [htail target rest packed hrest, List.append_assoc, ← h.plan, hrest]
    rfl
  · rw [List.length_append, Nat.cast_add, ← hasked.targetCount]
    rfl
  · rw [List.map_append, List.sum_append, ← hasked.rowReferenceCount]
    simp [FormulaicQMajorCursor.record]
  · rw [List.foldl_append, ← hasked.perLane]
    rfl

/-- Closing the cursor keeps the invariant. -/
theorem Kept.close (h : Kept initial accepted c) :
    Kept initial accepted { c with finished := true } where
  standing := ⟨h.standing.tiled, h.standing.start_nonneg, h.standing.start_le,
    h.standing.le_stop, h.standing.stop_le, h.standing.lane⟩
  accounting := h.accounting
  lanes := h.lanes
  start := h.start
  stop := h.stop
  plan := h.plan
  targetCount := h.targetCount
  rowReferenceCount := h.rowReferenceCount
  perLane := h.perLane

/-- **Every history keeps the invariant.** -/
theorem kept_history (hinit : initial.Fresh) (h : History initial accepted c) :
    Kept initial accepted c := by
  induction h with
  | start => exact kept_init hinit
  | asked _ ih => exact ih.refused (refused_expectedTarget _)
  | @accepted accepted c c' offer target _ hobserved haccept ih =>
      rcases accept_cases c offer with ⟨e, herror⟩ | ⟨expected, packed, hopen, hnext, heq, _, hok⟩
      · rw [herror] at haccept
        cases haccept
      · rw [hobserved, Except.ok.injEq] at heq
        rw [hok, Prod.mk.injEq] at haccept
        rw [heq, ← haccept.1]
        exact ih.record hopen hnext packed
  | @refused accepted c c' offer e _ haccept ih =>
      rcases accept_cases c offer with ⟨e', herror⟩ | ⟨expected, packed, _, _, _, _, hok⟩
      · rw [herror, Prod.mk.injEq] at haccept
        rw [← haccept.1]
        exact ih.refused (refused_expectedTarget _)
      · rw [hok] at haccept
        cases haccept
  | @finished accepted c _ ih =>
      have hasked := ih.refused (refused_expectedTarget c)
      rcases finish_cases c with ⟨e, herror⟩ | ⟨report, _, _, hok⟩
      · rw [herror]
        exact hasked
      · rw [hok]
        exact hasked.close

/-- The totals of a cursor that has nothing left are those of the accounting. -/
theorem Kept.agree (hinit : initial.Fresh) (h : Kept initial accepted c)
    (hnil : c.remaining = []) : ¬ c.totalsDiffer := by
  have hall : accepted = initial.planned := by
    rw [← h.plan, hnil, List.append_nil]
  have hinLanes : InLanes initial.lanes initial.planned := hinit.standing.tiled.inLanes _
  have hperLane : c.perLane = c.accounting.perLane := by
    rw [h.perLane, h.accounting, hinit.accountedLanes, hall,
      foldl_count_zero fun t ht => (hinLanes t ht).1]
  rintro (hdiffer | hdiffer | hdiffer | hdiffer)
  · exact hdiffer (by rw [h.targetCount, h.accounting, hinit.accountedTargets, hall])
  · exact hdiffer (by rw [h.rowReferenceCount, h.accounting, hinit.accountedRows, hall])
  · exact hdiffer (by rw [hperLane])
  · exact hdiffer (by rw [hperLane])

/-- The session of a cursor whose totals agree prints, since its accounting printed. -/
theorem Kept.printed (hinit : initial.Fresh) (h : Kept initial accepted c)
    (hagree : ¬ c.totalsDiffer) : Json.fits c.session.body = true := by
  have hprinted := hinit.printed
  rw [← h.accounting] at hprinted
  unfold totalsDiffer at hagree
  push Not at hagree
  obtain ⟨hcount, hrows, htargets, hlaneRows⟩ := hagree
  have hstart : c.startQIndex = c.accounting.plan.startExecutionQIndex := by
    rw [h.start, h.accounting, hinit.start]
  have hstop : c.stopQIndex = c.accounting.plan.stopExecutionQIndex := by
    rw [h.stop, h.accounting, hinit.stop]
  have hprints := Json.fits_object.mp hprinted
  simp only [PlanIdentity.members, List.cons_append, List.nil_append, List.mem_cons,
    List.not_mem_nil, or_false, forall_eq_or_imp, forall_eq] at hprints
  obtain ⟨_, hversion, _, _, _, _, _, _, hstartFits, hstopFits, _, _, _, _, hcountFits, hrowsFits,
    htargetsFits, hlaneRowsFits, _⟩ := hprints
  refine Json.fits_object.mpr ?_
  simp only [session, hstart, hstop, hcount, hrows, htargets, hlaneRows, List.mem_cons,
    List.not_mem_nil, or_false, forall_eq_or_imp, forall_eq]
  exact ⟨rfl, hversion, rfl, rfl, rfl, rfl, rfl, hstartFits, hstopFits, hcountFits, hrowsFits,
    htargetsFits, hlaneRowsFits, rfl, rfl⟩

/-- **A cursor can be finished exactly when it has accepted its whole plan.** -/
theorem Kept.finish_iff (hinit : initial.Fresh) (h : Kept initial accepted c)
    (hopen : c.finished = false) :
    (∃ report, c.finish.2 = .ok report) ↔ accepted = initial.planned := by
  obtain ⟨_, _, hhead, _⟩ := h.standing.expectedTarget hopen
  have hasked := h.refused (refused_expectedTarget c)
  have hremaining := (refused_expectedTarget c).remaining h.standing
  constructor
  · rintro ⟨report, hreport⟩
    rcases finish_cases c with ⟨e, herror⟩ | ⟨_, _, hnone, _⟩
    · rw [herror] at hreport
      cases hreport
    · rw [hhead, Except.ok.injEq, List.head?_eq_none_iff] at hnone
      rw [← h.plan, hnone, List.append_nil]
  · intro hall
    have hnil : c.remaining = [] := by
      have hplan := h.plan
      rwa [← hall, List.append_right_eq_self] at hplan
    have hagree := hasked.agree hinit (hremaining.trans hnil)
    obtain ⟨hash, hhash⟩ := canonicalSha256_isOk.mpr (hasked.printed hinit hagree)
    exact finish_of_agree hopen (by rw [hhead, hnil]; rfl) hagree hhash

/-- The totals of a cursor that no request finds another target for are never refused. -/
theorem Kept.not_totalsDiffer (hinit : initial.Fresh) (h : Kept initial accepted c)
    (hnone : c.expectedTarget.2 = .ok none) : ¬ c.expectedTarget.1.totalsDiffer := by
  have hopen : c.finished = false := by
    cases hfinished : c.finished with
    | false => rfl
    | true => simp [FormulaicQMajorCursor.expectedTarget, hfinished] at hnone
  rw [(h.standing.expectedTarget hopen).2.2.1, Except.ok.injEq, List.head?_eq_none_iff] at hnone
  exact (h.refused (refused_expectedTarget c)).agree hinit
    (((refused_expectedTarget c).remaining h.standing).trans hnone)

/-! ## The sequence of targets -/

theorem packWord_long {n : Int} (h : 0 ≤ n ∧ n < 2 ^ 64) : ∃ bytes, packWord 8 n = .ok bytes :=
  ⟨_, if_pos (by norm_num; omega)⟩

theorem packWord_word {n : Int} (h : 0 ≤ n ∧ n < 2 ^ 32) : ∃ bytes, packWord 4 n = .ok bytes :=
  ⟨_, if_pos (by norm_num; omega)⟩

/-- Every target of an accepted plan packs. -/
theorem packed_isOk (h : c.Standing) {target : FormulaicTarget} (htarget : target ∈ c.planned) :
    ∃ packed, target.packed = .ok packed := by
  obtain ⟨hqlow, hqhigh, hq, hlane, hfirst, hstop, hcountLow, hcountHigh⟩ :=
    h.tiled.words htarget
  have hlength := c.schedule.length_word
  have hnonneg := h.start_nonneg
  have hstopLe := h.stop_le
  have hstartStop := h.start_le.trans h.le_stop
  have hslice : (c.schedule.slice c.startQIndex c.stopQIndex).length ≤
      c.stopQIndex.toNat - c.startQIndex.toNat := by
    unfold ParsedScheduleManifest.slice
    rw [List.length_drop, List.length_take]
    omega
  obtain ⟨executionQIndex, hexecutionQIndex⟩ := packWord_long (n := target.executionQIndex)
    ⟨by omega, by omega⟩
  obtain ⟨q, hq⟩ := packWord_word hq
  obtain ⟨laneIndex, hlaneIndex⟩ := packWord_word hlane
  obtain ⟨firstT, hfirstT⟩ := packWord_word hfirst
  obtain ⟨stopT, hstopT⟩ := packWord_word hstop
  obtain ⟨batchCount, hbatchCount⟩ := packWord_word ⟨hcountLow.le, hcountHigh⟩
  refine ⟨executionQIndex ++ q ++ laneIndex ++ firstT ++ stopT ++ batchCount, ?_⟩
  unfold FormulaicTarget.packed
  rw [hexecutionQIndex, hq, hlaneIndex, hfirstT, hstopT, hbatchCount]
  rfl

/-- The next target is accepted. -/
theorem accept_next {offer : Offer} {target : FormulaicTarget} {packed : Bytes}
    (hnext : c.expectedTarget.2 = .ok (some target)) (hoffer : offer.observed = .ok target)
    (hpacked : target.packed = .ok packed) :
    c.accept offer = (c.expectedTarget.1.record target packed, .ok ()) := by
  unfold accept
  rcases hasked : c.expectedTarget with ⟨c', result⟩
  rw [hasked] at hnext
  dsimp only at hnext
  subst hnext
  simp [hoffer, hpacked]

theorem finished_expectedTarget (c : FormulaicQMajorCursor) :
    c.expectedTarget.1.finished = c.finished := by
  unfold FormulaicQMajorCursor.expectedTarget
  split
  · rfl
  · rfl

/-- **Asking and accepting until there is no more runs through what is to come.** -/
theorem yields_remaining (h : c.Standing) (hopen : c.finished = false)
    {targets : List FormulaicTarget} (hremaining : c.remaining = targets)
    (hpacks : ∀ target ∈ targets, ∃ packed, target.packed = .ok packed) :
    Yields c targets := by
  induction targets generalizing c with
  | nil =>
      refine .done ?_
      rw [(h.expectedTarget hopen).2.2.1, hremaining]
      rfl
  | cons target rest ih =>
      obtain ⟨hstanding, hsame, hhead, _⟩ := h.expectedTarget hopen
      have hasked : c.expectedTarget = (c.expectedTarget.1, .ok (some target)) := by
        rw [hremaining] at hhead
        exact Prod.ext rfl hhead
      have hopen' : c.expectedTarget.1.finished = false := by rwa [finished_expectedTarget]
      have hremaining' := hsame.trans hremaining
      obtain ⟨packed, hpacked⟩ := hpacks target List.mem_cons_self
      -- asking again finds the same target
      obtain ⟨hstanding', _, hhead', htail'⟩ := hstanding.expectedTarget hopen'
      rw [hremaining'] at hhead'
      refine .next hasked (accept_next hhead' rfl hpacked) (ih (hstanding'.record target packed) ?_
        (htail' target rest packed hremaining')
        fun t ht => hpacks t (List.mem_cons_of_mem target ht))
      exact (finished_expectedTarget _).trans hopen'

/-! ## Cursors can be made -/

/-- The totals of an accepted plan print. -/
theorem fits_of_rows {rows n : Int} (hrows : rows ≤ 2 ^ 64 * 2 ^ 32) (hlow : 0 ≤ n)
    (hn : n ≤ rows) : Json.fits (.int n) = true :=
  Json.fits_int_of_lt (show 97 ≤ 4300 by decide) (by norm_num at hrows ⊢; omega)

theorem fits_ints {xs : List Int} (h : ∀ n ∈ xs, Json.fits (.int n) = true) :
    Json.fits (.arr (xs.map .int)) = true := by
  rw [Json.fits_arr, List.forall_mem_map]
  exact h

/-- A plan that was accepted and is not the whole source campaign gets its cursor. -/
theorem init_isOk {schedule : ParsedScheduleManifest} {lanes : List LaneRange} {first : Int}
    {last : Option Int} {size : Int} {plan : PlanIdentity}
    (h : planIdentity schedule lanes first last size = .ok plan)
    (hsource : ¬ plan.isFullSource schedule) :
    ∃ c, init schedule lanes first last size = .ok c := by
  have haccepted := planIdentity_ok h
  have htiled := haccepted.tiled
  have hprinted : Json.fits (.object plan.members) = true := by
    simp only [planIdentity, bind_ok, pure_ok] at h
    obtain ⟨_, _, _, _, hash, hhash, rfl⟩ := h
    exact canonicalSha256_isOk.mp ⟨hash, hhash⟩
  -- the tally of the plan, and a bound on its rows
  have hinLanes := htiled.inLanes plan.startExecutionQIndex
  have htally := foldl_accountRecord htiled.size_pos lanes plan.startExecutionQIndex
    (schedule.slice plan.startExecutionQIndex plan.stopExecutionQIndex) (LaneTotals.zero lanes)
  rw [foldl_count_zero fun t ht => (hinLanes t ht).1] at htally
  have hlength := schedule.length_word
  have hslice : (schedule.slice plan.startExecutionQIndex plan.stopExecutionQIndex).length ≤
      schedule.executionRecords.length := by
    unfold ParsedScheduleManifest.slice
    rw [List.length_drop, List.length_take]
    omega
  have hrows := (sum_batchCount htiled plan.startExecutionQIndex).le.trans (sum_tIndexCount_le _)
  have hbound : ((planTargets size lanes plan.startExecutionQIndex (schedule.slice
      plan.startExecutionQIndex plan.stopExecutionQIndex)).map FormulaicTarget.batchCount).sum ≤
      2 ^ 64 * 2 ^ 32 := by
    refine hrows.trans ?_
    norm_num
    omega
  have hpositive : ∀ t ∈ planTargets size lanes plan.startExecutionQIndex (schedule.slice
      plan.startExecutionQIndex plan.stopExecutionQIndex), 0 < t.batchCount :=
    fun t ht => (htiled.words ht).2.2.2.2.2.2.1
  obtain ⟨hcounts, htargetEach, hrowEach⟩ := ofTargets_le lanes hpositive
  obtain ⟨hsumTargets, hsumRows⟩ := sum_ofTargets hinLanes
  have hlanes := haccepted.lanes_eq
  have hstart := haccepted.start_nonneg
  have hlt := haccepted.start_lt_stop
  have hstop := haccepted.stop_le
  simp only [init, formulaicAccounting, bind_ok, pure_ok, refuseIf_ok]
  have hfits : ∀ matched, Json.fits (FormulaicAccounting.body
      { plan := plan
        qCount := plan.stopExecutionQIndex - plan.startExecutionQIndex
        targetCount := (LaneTotals.ofTargets lanes (planTargets size lanes plan.startExecutionQIndex
          (schedule.slice plan.startExecutionQIndex plan.stopExecutionQIndex))).targetCounts.sum
        rowReferenceCount := (LaneTotals.ofTargets lanes (planTargets size lanes
          plan.startExecutionQIndex (schedule.slice plan.startExecutionQIndex
          plan.stopExecutionQIndex))).rowCounts.sum
        perLane := LaneTotals.ofTargets lanes (planTargets size lanes plan.startExecutionQIndex
          (schedule.slice plan.startExecutionQIndex plan.stopExecutionQIndex))
        sourceScalePinsMatched := matched
        accountingSha256 := [] }) = true := by
    intro matched
    refine Json.fits_object.mpr ?_
    rw [List.forall_mem_append, List.forall_mem_append]
    refine ⟨⟨?_, Json.fits_object.mp hprinted⟩, ?_⟩
    · simp only [List.mem_cons, List.not_mem_nil, or_false, forall_eq_or_imp, forall_eq]
      exact ⟨rfl, Json.fits_int_of_word (by decide), rfl, rfl⟩
    · simp only [List.mem_cons, List.not_mem_nil, or_false, forall_eq_or_imp, forall_eq]
      refine ⟨rfl, Json.fits_int_of_word (by omega), ?_, ?_, ?_, ?_, rfl,
        Json.fits_int_of_word (by decide), rfl, rfl, rfl, rfl, rfl, rfl⟩
      · rw [hsumTargets]
        exact fits_of_rows hbound (Int.natCast_nonneg _) hcounts
      · rw [hsumRows]
        exact fits_of_rows hbound ((Int.natCast_nonneg _).trans hcounts) le_rfl
      · exact fits_ints fun n hn => fits_of_rows hbound (htargetEach n hn).1 (htargetEach n hn).2
      · exact fits_ints fun n hn => fits_of_rows hbound (hrowEach n hn).1 (hrowEach n hn).2
  obtain ⟨hash, hhash⟩ := canonicalSha256_isOk.mpr (hfits (plan.isFullSource schedule))
  refine ⟨_, _, ⟨plan, h, (), fun hbad => hsource hbad.1, hash, ?_, rfl⟩, rfl⟩
  rw [hlanes, htally]
  exact hhash

end FormulaicQMajorCursor

open FormulaicQMajorCursor in
/-- **A formulaic cursor covers its plan exactly.** Asking and accepting runs through one list
of targets. Whatever was tried on the cursor before, it can be finished exactly when the targets
it accepted are that list, and its totals are then never refused. The list takes the moduli in
order, cuts the ordinates of each into as few batches as possible, none across a lane boundary,
and the closed-form accounting is its tally. -/
theorem formulaic_cursor_coverage {schedule : ParsedScheduleManifest} {lanes : List LaneRange}
    {first : Int} {last : Option Int} {size : Int} {plan : PlanIdentity}
    (hplan : planIdentity schedule lanes first last size = .ok plan) :
    (¬ plan.isFullSource schedule → ∃ c, init schedule lanes first last size = .ok c) ∧
    ∀ c, init schedule lanes first last size = .ok c →
      ∃ targets, Yields c targets ∧
        (∀ accepted c', History c accepted c' → c'.finished = false →
          ((∃ report, c'.finish.2 = .ok report) ↔ accepted = targets)) ∧
        (∀ accepted c', History c accepted c' → c'.expectedTarget.2 = .ok none →
          ¬ c'.expectedTarget.1.totalsDiffer) ∧
        ExactCoverage schedule lanes size first (last.getD schedule.executionRecords.length)
          targets ∧
        ∃ accounting, formulaicAccounting schedule lanes first last size = .ok accounting ∧
          accounting.targetCount = targets.length ∧
          accounting.rowReferenceCount = (targets.map FormulaicTarget.batchCount).sum ∧
          accounting.perLane = LaneTotals.ofTargets lanes targets := by
  refine ⟨init_isOk hplan, fun c hinit => ?_⟩
  obtain ⟨hfresh, haccounting, hschedule, hlanes, hfirst, hlast, hsize⟩ := init_ok hinit
  have hstanding := hfresh.standing
  refine ⟨c.planned, ?_, fun accepted c' hhistory hopen => ?_, fun accepted c' hhistory hnone => ?_,
    ?_, c.accounting, haccounting, hfresh.accountedTargets, hfresh.accountedRows, ?_⟩
  · exact yields_remaining hstanding hfresh.finished hfresh.remaining
      fun target htarget => packed_isOk hstanding htarget
  · exact (kept_history hfresh hhistory).finish_iff hfresh hopen
  · exact (kept_history hfresh hhistory).not_totalsDiffer hfresh hnone
  · have haccepted := planIdentity_ok hplan
    have hlt := haccepted.start_lt_stop
    rw [haccepted.start_eq, haccepted.stop_eq, ← hfirst, ← hlast] at hlt
    have hexact : ExactCoverage c.schedule c.lanes c.maximumBatchCount c.startQIndex c.stopQIndex
        c.planned := hstanding.tiled.exactCoverage hstanding.start_nonneg hlt hstanding.stop_le
    rwa [hschedule, hlanes, hsize, hfirst, hlast] at hexact
  · rw [← hlanes]
    exact hfresh.accountedLanes

/-- Two moduli of five and three ordinates. -/
def twoModuli : ParsedScheduleManifest where
  classification := Text.ofString "bounded-primitive-v2-conformance-permutation"
  executionRecords := [⟨5, 5, by decide, by decide⟩, ⟨3, 3, by decide, by decide⟩]
  executionOrderSha256 := []
  manifestSha256 := []
  length_word := by decide

def twoLanes : List LaneRange := [⟨0, 0, 4⟩, ⟨1, 4, 6⟩]

/-- Their plan, but for its digest. -/
def twoModuliPlan : PlanIdentity where
  scheduleManifestSha256 := twoModuli.manifestSha256
  scheduleClassification := twoModuli.classification
  scheduleExecutionOrderSha256 := twoModuli.executionOrderSha256
  startExecutionQIndex := 0
  stopExecutionQIndex := 2
  maximumBatchCount := 2
  lanes := twoLanes
  planSha256 := []

theorem twoModuli_plan : ∃ plan, planIdentity twoModuli twoLanes 0 none 2 = .ok plan ∧
    ¬ plan.isFullSource twoModuli := by
  have hslice : sliceBounds twoModuli 0 none = .ok (0, 2) := rfl
  have hlanes : validateLanes twoLanes (requiredStop (twoModuli.slice 0 2)) 2 = .ok twoLanes := rfl
  have hprinted : Json.fits (.object twoModuliPlan.members) = true := by
    refine Json.fits_object.mpr ?_
    simp only [PlanIdentity.members, twoModuliPlan, List.mem_cons, List.not_mem_nil, or_false, forall_eq_or_imp,
      forall_eq, twoLanes, List.map_cons, List.map_nil, Json.fits_arr, LaneRange.report,
      Json.fits_object]
    have hword : ∀ n : Nat, n < 2 ^ 64 → Json.fits (.int n) = true := fun n hn =>
      Json.fits_int_of_word (by rwa [Int.natAbs_natCast])
    exact ⟨rfl, rfl, rfl, rfl, hword 0 (by decide), hword 2 (by decide), hword 2 (by decide),
      ⟨hword 0 (by decide), hword 0 (by decide), hword 4 (by decide), hword 4 (by decide)⟩,
      hword 1 (by decide), hword 4 (by decide), hword 6 (by decide), hword 2 (by decide)⟩
  obtain ⟨hash, hhash⟩ := FormulaicQMajorCursor.canonicalSha256_isOk.mpr hprinted
  refine ⟨{ twoModuliPlan with planSha256 := hash }, ?_, ?_⟩
  · simp only [planIdentity, bind_ok, pure_ok]
    exact ⟨(0, 2), hslice, twoLanes, hlanes, hash, hhash, rfl⟩
  · rintro ⟨hsource, _⟩
    exact absurd hsource (by decide)

open FormulaicQMajorCursor in
/-- The five ordinates of the first modulus take three targets and the three of the second two. -/
theorem formulaic_cursor_coverage_twoModuli :
    ∃ plan c targets, planIdentity twoModuli twoLanes 0 none 2 = .ok plan ∧
      init twoModuli twoLanes 0 none 2 = .ok c ∧ Yields c targets ∧
      (targets.filter (·.executionQIndex = 0)).length = 3 ∧
      (targets.filter (·.executionQIndex = 1)).length = 2 := by
  obtain ⟨plan, hplan, hsource⟩ := twoModuli_plan
  obtain ⟨hmade, hcovers⟩ := formulaic_cursor_coverage hplan
  obtain ⟨c, hc⟩ := hmade hsource
  obtain ⟨targets, hyields, _, _, hexact, _⟩ := hcovers c hc
  refine ⟨plan, c, targets, hplan, hc, hyields, ?_, ?_⟩
  · have hfirst : ((targets.filter (·.executionQIndex = 0)).length : Int) = 3 :=
      (hexact.modulus 0 ⟨5, 5, by decide, by decide⟩ (by decide) (by decide) rfl).2.2
    exact_mod_cast hfirst
  · have hsecond : ((targets.filter (·.executionQIndex = 1)).length : Int) = 2 :=
      (hexact.modulus 1 ⟨3, 3, by decide, by decide⟩ (by decide) (by decide) rfl).2.2
    exact_mod_cast hsecond

end AttestedCompute.Dirichlet.Formulaic
