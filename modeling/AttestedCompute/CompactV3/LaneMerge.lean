import AttestedCompute.CompactV3.State

/-!
# Merging lanes is scanning them together

A scan that has seen one more code is the scan before with that code appended to its state
(`scanState_snoc`), and appending a code to the right one of two states appends it to their merge
(`merged_appendCode`). So by induction on the codes of the right lane the merge of two scans is the
scan of both, for every cut and every number of lanes.
-/

namespace AttestedCompute.CompactV3

open Fallible

/-! ## What the loops consume -/

/-- The scan of a list of codes whose first one belongs to the given sample. -/
def scanFrom (spanFirst : Int) (index : Nat) (s : CodeScan) (codes : List Int) : CodeScan :=
  (codes.zipIdx index).foldl
    (fun s code => s.observe (spanFirst + code.2 * SOURCE_SAMPLE_NUMERATOR) code.1) s

/-- The state of a lane with the given codes. -/
def scanState (identity : Identity) (spanFirst : Int) (codes : List Int) : CharacterState :=
  (scanFrom spanFirst 0 {} codes).state identity spanFirst codes.length

/-- A code for ambiguous, negative or positive. -/
def IsCode (code : Int) : Prop := code ∈ [0, 1, 2]

theorem scanCodes_ok {spanFirst : Int} {index count : Nat} {s s' : CodeScan}
    {codes rest : List Int} :
    scanCodes spanFirst index count s codes = .ok (s', rest) ↔
      ∃ row, codes = row ++ rest ∧ row.length = count ∧ (∀ code ∈ row, IsCode code) ∧
        s' = scanFrom spanFirst index s row := by
  induction count generalizing index s codes with
  | zero =>
      rw [scanCodes, pure_ok, Prod.mk.injEq]
      constructor
      · intro h
        exact ⟨[], by rw [h.2]; rfl, rfl, fun code hcode => (by cases hcode), h.1.symm⟩
      · intro h
        obtain ⟨row, hrow, hlength, _, hs⟩ := h
        rw [List.length_eq_zero_iff.mp hlength] at hrow hs
        exact ⟨hs.symm, hrow⟩
  | succ count ih =>
      cases codes with
      | nil =>
          constructor
          · intro h
            cases h
          · intro h
            obtain ⟨row, hrow, hlength, _⟩ := h
            rw [(List.append_eq_nil_iff.mp hrow.symm).1] at hlength
            cases hlength
      | cons code codes =>
          simp only [scanCodes, bind_ok, failIf_ok, not_not]
          constructor
          · intro h
            obtain ⟨_, hcode, h⟩ := h
            obtain ⟨row, hrow, hlength, hvalid, hs⟩ := ih.mp h
            refine ⟨code :: row, by rw [hrow]; rfl, by rw [List.length_cons, hlength], ?_, ?_⟩
            · intro c hc
              rcases List.mem_cons.mp hc with rfl | hc
              · exact hcode
              · exact hvalid c hc
            · rw [hs]
              rfl
          · intro h
            obtain ⟨row, hrow, hlength, hvalid, hs⟩ := h
            cases row with
            | nil => cases hlength
            | cons c row =>
                rw [List.cons_append, List.cons.injEq] at hrow
                obtain ⟨rfl, hrow⟩ := hrow
                refine ⟨(), hvalid code List.mem_cons_self, ih.mpr ⟨row, hrow, ?_, ?_, ?_⟩⟩
                · rw [List.length_cons] at hlength
                  omega
                · exact fun c hc => hvalid c (List.mem_cons_of_mem code hc)
                · rw [hs]
                  rfl

/-- **A state is built from exactly the codes of its samples.** -/
theorem stateFromCodes_ok {identity : Identity} {spanFirst : Int} {count : Nat}
    {codes rest : List Int} {state : CharacterState} :
    stateFromCodes identity codes spanFirst count = .ok (state, rest) ↔
      ∃ row, codes = row ++ rest ∧ row.length = count ∧ (∀ code ∈ row, IsCode code) ∧
        state = scanState identity spanFirst row := by
  simp only [stateFromCodes, bind_ok, Prod.exists, pure_ok, Prod.mk.injEq, scanCodes_ok]
  constructor
  · intro h
    obtain ⟨scan, rest', ⟨row, hrow, hlength, hvalid, rfl⟩, rfl, rfl⟩ := h
    exact ⟨row, hrow, hlength, hvalid, by rw [scanState, hlength]⟩
  · intro h
    obtain ⟨row, hrow, hlength, hvalid, rfl⟩ := h
    exact ⟨_, rest, ⟨row, hrow, hlength, hvalid, rfl⟩, by rw [scanState, hlength], rfl⟩

/-! ## One more code -/

/-- The ordinate of the sample behind the last one of a state. -/
def nextNumerator (spanFirst : Int) (s : CharacterState) : Int :=
  spanFirst + s.sampleCount * SOURCE_SAMPLE_NUMERATOR

/-- The sign that a code other than 0 stands for. -/
def signOf (code : Int) : Int := if code = 1 then -1 else 1

/-- The state with one more code. -/
def appendCode (spanFirst : Int) (s : CharacterState) (code : Int) : CharacterState :=
  let numerator := nextNumerator spanFirst s
  if code = 0 then
    { s with
      sampleCount := s.sampleCount + 1
      leadingAmbiguityCount :=
        if s.firstDeterminateNumerator = none then s.leadingAmbiguityCount + 1
        else s.leadingAmbiguityCount
      trailingAmbiguityCount := s.trailingAmbiguityCount + 1
      ambiguityCount := s.ambiguityCount + 1
      ambiguityRanges :=
        joinRanges s.ambiguityRanges [⟨numerator, numerator + SOURCE_SAMPLE_NUMERATOR⟩] }
  else
    { s with
      sampleCount := s.sampleCount + 1
      firstDeterminateNumerator := some (s.firstDeterminateNumerator.getD numerator)
      firstSign := if s.firstDeterminateNumerator = none then signOf code else s.firstSign
      lastDeterminateNumerator := some numerator
      lastSign := signOf code
      trailingAmbiguityCount := 0
      internalSignChangeCount :=
        if s.firstDeterminateNumerator ≠ none ∧ s.lastSign ≠ signOf code then
          s.internalSignChangeCount + 1
        else s.internalSignChangeCount }

theorem scanFrom_snoc (spanFirst : Int) (codes : List Int) (code : Int) :
    scanFrom spanFirst 0 {} (codes ++ [code]) =
      (scanFrom spanFirst 0 {} codes).observe
        (spanFirst + codes.length * SOURCE_SAMPLE_NUMERATOR) code := by
  rw [scanFrom, List.zipIdx_append, List.foldl_append]
  simp [scanFrom]

/-- What a scan knows about its ranges after some samples. -/
structure ScanInv (spanFirst : Int) (count : Nat) (s : CodeScan) : Prop where
  /-- An open range begins with the span as long as nothing was determinate. -/
  openFirst : ∀ start ∈ s.openRange, if s.first = none then start = spanFirst else spanFirst < start
  /-- A range that is not open ended before the last sample. -/
  closedLast : s.openRange = none → ∀ range ∈ s.ranges.getLast?,
    range.stopTNumerator < spanFirst + count * SOURCE_SAMPLE_NUMERATOR
  closedSeen : s.ranges ≠ [] → s.first ≠ none
  started : s.openRange = none → s.first = none → count = 0
  seen : s.first ≠ none → 0 < count

theorem scanInv_observe {spanFirst : Int} {count : Nat} {s : CodeScan}
    (h : ScanInv spanFirst count s) (code : Int) :
    ScanInv spanFirst (count + 1)
      (s.observe (spanFirst + count * SOURCE_SAMPLE_NUMERATOR) code) := by
  unfold CodeScan.observe
  split
  · refine ⟨?_, fun hopen => (by cases hopen), h.closedSeen, fun hopen => (by cases hopen),
      fun _ => Nat.succ_pos count⟩
    intro start hstart
    obtain rfl : s.openRange.getD (spanFirst + count * SOURCE_SAMPLE_NUMERATOR) = start :=
      Option.some.inj hstart
    cases hopen : s.openRange with
    | none =>
        dsimp only [Option.getD_none]
        split
        · rename_i hfirst
          rw [h.started hopen hfirst, Nat.cast_zero, zero_mul, add_zero]
        · rename_i hfirst
          have := h.seen hfirst
          unfold SOURCE_SAMPLE_NUMERATOR
          omega
    | some start => exact h.openFirst start hopen
  · refine ⟨fun start hstart => (by cases hstart), fun _ range hrange => ?_,
      fun _ hfirst => (by cases hfirst), fun _ hfirst => (by cases hfirst),
      fun _ => Nat.succ_pos count⟩
    dsimp only at hrange
    unfold SOURCE_SAMPLE_NUMERATOR
    cases hopen : s.openRange with
    | none =>
        rw [CodeScan.closed, hopen] at hrange
        have := h.closedLast hopen range hrange
        unfold SOURCE_SAMPLE_NUMERATOR at this
        push_cast
        omega
    | some start =>
        rw [CodeScan.closed, hopen, Option.mem_def, List.getLast?_concat] at hrange
        rw [← Option.some.inj hrange]
        unfold SOURCE_SAMPLE_NUMERATOR
        push_cast
        omega

theorem scanInv_scanFrom (spanFirst : Int) (codes : List Int) :
    ScanInv spanFirst codes.length (scanFrom spanFirst 0 {} codes) := by
  induction codes using List.reverseRecOn with
  | nil => exact ⟨fun _ h => (by cases h), fun _ _ h => (by cases h), fun h => absurd rfl h,
      fun _ _ => rfl, fun h => absurd rfl h⟩
  | append_singleton codes code ih =>
      rw [scanFrom_snoc, List.length_append, List.length_singleton]
      exact scanInv_observe ih code

/-- An ambiguous sample joins the range that is open, or opens one. -/
theorem closed_observe_zero {spanFirst : Int} {count : Nat} {s : CodeScan}
    (h : ScanInv spanFirst count s) (stop : Int) :
    (s.observe (spanFirst + count * SOURCE_SAMPLE_NUMERATOR) 0).closed stop =
      joinRanges (s.closed (spanFirst + count * SOURCE_SAMPLE_NUMERATOR))
        [⟨spanFirst + count * SOURCE_SAMPLE_NUMERATOR, stop⟩] := by
  cases hopen : s.openRange with
  | none =>
      have hlast := h.closedLast hopen
      simp only [CodeScan.observe, CodeScan.closed, hopen, if_true, Option.getD_none, joinRanges]
      cases hrange : s.ranges.getLast? with
      | none => rfl
      | some range =>
          have := hlast range hrange
          dsimp only
          rw [if_neg (by omega)]
  | some start =>
      simp [CodeScan.observe, CodeScan.closed, hopen, joinRanges]

theorem closed_observe_sign {s : CodeScan} {code : Int} (hcode : code ≠ 0) (numerator stop : Int) :
    (s.observe numerator code).closed stop = s.closed numerator := by
  rw [CodeScan.observe, if_neg hcode, CodeScan.closed]

/-- The ambiguous samples at the start grow only while nothing is determinate. -/
theorem leadingCount_observe_zero {spanFirst : Int} {count : Nat} {s : CodeScan}
    (h : ScanInv spanFirst count s) :
    let numerator := spanFirst + count * SOURCE_SAMPLE_NUMERATOR
    leadingCount spanFirst ((s.observe numerator 0).closed (numerator + SOURCE_SAMPLE_NUMERATOR)) =
      if s.first = none then leadingCount spanFirst (s.closed numerator) + 1
      else leadingCount spanFirst (s.closed numerator) := by
  intro numerator
  cases hranges : s.ranges with
  | cons range ranges =>
      -- the first range is closed, so something was determinate
      have hseen := h.closedSeen (by rw [hranges]; exact List.cons_ne_nil range ranges)
      rw [if_neg hseen]
      have hhead : ∀ o stop, ((s.observe numerator 0).closed stop).head? = some range ∧
          (s.closed o).head? = some range := by
        intro o stop
        cases hopen : s.openRange with
        | none => simp [CodeScan.observe, CodeScan.closed, hopen, hranges]
        | some start => simp [CodeScan.observe, CodeScan.closed, hopen, hranges]
      rw [leadingCount, leadingCount, (hhead numerator _).1, (hhead numerator 0).2]
  | nil =>
      cases hopen : s.openRange with
      | none =>
          have hclosed : s.closed numerator = [] := by rw [CodeScan.closed, hopen, hranges]
          rw [closed_observe_zero h, hclosed]
          simp only [joinRanges, leadingCount, List.getLast?_nil, List.nil_append, List.head?_cons,
            List.head?_nil]
          by_cases hfirst : s.first = none
          · have hzero := h.started hopen hfirst
            rw [if_pos hfirst, hzero]
            simp [numerator, hzero, SOURCE_SAMPLE_NUMERATOR]
          · have hpos := h.seen hfirst
            have hne : numerator ≠ spanFirst := by
              simp only [numerator, SOURCE_SAMPLE_NUMERATOR]
              omega
            rw [if_neg hfirst, if_neg hne]
      | some start =>
          have hstart := h.openFirst start hopen
          simp only [CodeScan.observe, CodeScan.closed, hopen, hranges, if_true, Option.getD_some,
            leadingCount, List.nil_append, List.head?_cons]
          by_cases hfirst : s.first = none
          · rw [if_pos hfirst] at hstart ⊢
            rw [if_pos hstart, if_pos hstart]
            simp only [SOURCE_SAMPLE_NUMERATOR]
            omega
          · rw [if_neg hfirst] at hstart ⊢
            rw [if_neg hstart.ne', if_neg hstart.ne']

/-- An ambiguous sample at the end is one more. -/
theorem trailingCount_observe_zero {spanFirst : Int} {count : Nat} {s : CodeScan}
    (h : ScanInv spanFirst count s) :
    let numerator := spanFirst + count * SOURCE_SAMPLE_NUMERATOR
    trailingCount (numerator + SOURCE_SAMPLE_NUMERATOR)
        ((s.observe numerator 0).closed (numerator + SOURCE_SAMPLE_NUMERATOR)) =
      trailingCount numerator (s.closed numerator) + 1 := by
  intro numerator
  cases hopen : s.openRange with
  | none =>
      have hlast := h.closedLast hopen
      have hzero : trailingCount numerator s.ranges = 0 := by
        unfold trailingCount
        cases hrange : s.ranges.getLast? with
        | none => rfl
        | some range =>
            have := hlast range hrange
            dsimp only
            rw [if_neg (by omega)]
      simp only [CodeScan.observe, CodeScan.closed, hopen, if_true, Option.getD_none]
      rw [hzero, trailingCount, List.getLast?_concat]
      simp [SOURCE_SAMPLE_NUMERATOR]
  | some start =>
      simp only [CodeScan.observe, CodeScan.closed, hopen, if_true, Option.getD_some]
      simp only [trailingCount, List.getLast?_concat, if_true]
      simp only [SOURCE_SAMPLE_NUMERATOR]
      omega

/-- Behind a determinate sample no range ends. -/
theorem trailingCount_observe_sign {spanFirst : Int} {count : Nat} {s : CodeScan}
    (h : ScanInv spanFirst count s) :
    let numerator := spanFirst + count * SOURCE_SAMPLE_NUMERATOR
    trailingCount (numerator + SOURCE_SAMPLE_NUMERATOR) (s.closed numerator) = 0 := by
  intro numerator
  have hbelow : ∀ range ∈ (s.closed numerator).getLast?, range.stopTNumerator ≤ numerator := by
    intro range hrange
    unfold CodeScan.closed at hrange
    cases hopen : s.openRange with
    | none =>
        rw [hopen] at hrange
        exact (h.closedLast hopen range hrange).le
    | some start =>
        rw [hopen, Option.mem_def, List.getLast?_concat] at hrange
        rw [← Option.some.inj hrange]
  unfold trailingCount
  cases hrange : (s.closed numerator).getLast? with
  | none => rfl
  | some range =>
      have := hbelow range hrange
      dsimp only
      rw [if_neg]
      simp only [SOURCE_SAMPLE_NUMERATOR]
      omega

/-- **One more code is appended to the state.** -/
theorem scanState_snoc (identity : Identity) (spanFirst : Int) (codes : List Int) (code : Int) :
    scanState identity spanFirst (codes ++ [code]) =
      appendCode spanFirst (scanState identity spanFirst codes) code := by
  have hinv := scanInv_scanFrom spanFirst codes
  have hstop : spanFirst + ((codes.length + 1 : Nat) : Int) * SOURCE_SAMPLE_NUMERATOR =
      spanFirst + codes.length * SOURCE_SAMPLE_NUMERATOR + SOURCE_SAMPLE_NUMERATOR := by
    push_cast
    ring
  rw [scanState, scanState, scanFrom_snoc, List.length_append, List.length_singleton]
  generalize scanFrom spanFirst 0 {} codes = s at hinv
  by_cases hcode : code = 0
  · subst hcode
    have hclosed := closed_observe_zero hinv
      (spanFirst + codes.length * SOURCE_SAMPLE_NUMERATOR + SOURCE_SAMPLE_NUMERATOR)
    have hlead := leadingCount_observe_zero hinv
    have htrail := trailingCount_observe_zero hinv
    dsimp only at hlead htrail
    unfold CodeScan.state appendCode nextNumerator
    dsimp only
    rw [hstop, hlead, htrail, hclosed]
    rfl
  · have hclosed := @closed_observe_sign s code hcode
      (spanFirst + codes.length * SOURCE_SAMPLE_NUMERATOR)
      (spanFirst + codes.length * SOURCE_SAMPLE_NUMERATOR + SOURCE_SAMPLE_NUMERATOR)
    have htrail := trailingCount_observe_sign hinv
    dsimp only at htrail
    unfold CodeScan.state appendCode nextNumerator
    dsimp only
    rw [hstop, hclosed, htrail, if_neg hcode]
    unfold CodeScan.observe
    rw [if_neg hcode]
    rfl

/-! ## Appending to the right state of a merge -/

/-- The merge without its bracket rows, for states that count their own samples. -/
def merged (left right : CharacterState) : CharacterState :=
  mergedState left right left.sampleCount right.sampleCount

theorem joinRanges_nil_left (right : List AmbiguityRange) : joinRanges [] right = right := rfl

theorem joinRanges_nil_right (left : List AmbiguityRange) : joinRanges left [] = left := by
  unfold joinRanges
  cases left.getLast? with
  | none => exact List.append_nil left
  | some before => exact List.append_nil left

theorem joinRanges_concat (left : List AmbiguityRange) (before range : AmbiguityRange)
    (rest : List AmbiguityRange) :
    joinRanges (left ++ [before]) (range :: rest) =
      if before.stopTNumerator = range.firstTNumerator then
        left ++ ⟨before.firstTNumerator, range.stopTNumerator⟩ :: rest
      else left ++ before :: range :: rest := by
  unfold joinRanges
  rw [List.getLast?_concat, List.dropLast_concat, List.append_assoc]
  rfl

/-- Joining one more range on the right does not depend on what was joined before. -/
theorem joinRanges_assoc (left middle : List AmbiguityRange) (range : AmbiguityRange) :
    joinRanges left (joinRanges middle [range]) = joinRanges (joinRanges left middle) [range] := by
  cases middle using List.reverseRecOn with
  | nil => rw [joinRanges_nil_left, joinRanges_nil_right]
  | append_singleton front last =>
      cases left using List.reverseRecOn with
      | nil => rw [joinRanges_nil_left, joinRanges_nil_left]
      | append_singleton left before =>
          rw [joinRanges_concat front last range []]
          cases front with
          | nil =>
              -- one range in the middle can meet both neighbours
              simp only [List.nil_append]
              by_cases hleft : before.stopTNumerator = last.firstTNumerator
              · by_cases hright : last.stopTNumerator = range.firstTNumerator
                · simp [joinRanges_concat, hleft, hright]
                · simp [joinRanges_concat, hleft, hright]
              · by_cases hright : last.stopTNumerator = range.firstTNumerator
                · simp only [joinRanges_concat, hleft, hright, if_true, if_false]
                  rw [show left ++ [before, last] = (left ++ [before]) ++ [last] by simp,
                    joinRanges_concat, if_pos hright]
                  simp
                · simp only [joinRanges_concat, hleft, hright, if_false]
                  rw [show left ++ [before, last] = (left ++ [before]) ++ [last] by simp,
                    joinRanges_concat, if_neg hright]
                  simp
          | cons first front =>
              -- the first and the last range of the middle meet one neighbour each
              have hend : ∀ xs : List AmbiguityRange, ∀ first : AmbiguityRange,
                  joinRanges (xs ++ first :: (front ++ [last])) [range] =
                    if last.stopTNumerator = range.firstTNumerator then
                      xs ++ first :: (front ++ [⟨last.firstTNumerator, range.stopTNumerator⟩])
                    else xs ++ first :: (front ++ [last, range]) := by
                intro xs first
                rw [show xs ++ first :: (front ++ [last]) = (xs ++ first :: front) ++ [last] by simp,
                  joinRanges_concat]
                split
                · simp
                · simp
              rw [show first :: front ++ [last] = first :: (front ++ [last]) from rfl,
                joinRanges_concat left before first (front ++ [last])]
              by_cases hleft : before.stopTNumerator = first.firstTNumerator
              · rw [if_pos hleft, hend]
                split
                · simp [joinRanges_concat, hleft]
                · simp [joinRanges_concat, hleft]
              · rw [if_neg hleft, show left ++ before :: first :: (front ++ [last]) =
                  (left ++ [before]) ++ first :: (front ++ [last]) by simp, hend]
                split
                · simp [joinRanges_concat, hleft]
                · simp [joinRanges_concat, hleft]

/-- **Appending a code to the right state appends it to the merge.** -/
theorem merged_appendCode {spanFirst border : Int} {left right : CharacterState}
    (hborder : border = nextNumerator spanFirst left) (code : Int) :
    merged left (appendCode border right code) = appendCode spanFirst (merged left right) code := by
  have hnext : nextNumerator border right = nextNumerator spanFirst (merged left right) := by
    rw [hborder]
    simp only [nextNumerator, merged, mergedState]
    ring
  unfold appendCode
  rw [hnext]
  split
  · -- an ambiguous sample: the ranges join in either order, and the counts go up by one
    unfold merged mergedState insertBoundary
    ext1
    all_goals dsimp only
    case sampleCount => ring
    case leadingAmbiguityCount =>
      cases left.firstDeterminateNumerator with
      | some first => simp
      | none =>
          cases right.firstDeterminateNumerator with
          | some first => simp
          | none =>
              simp
              ring
    case trailingAmbiguityCount =>
      cases right.firstDeterminateNumerator with
      | some first => simp
      | none =>
          simp
          ring
    case ambiguityCount => ring
    case ambiguityRanges => exact joinRanges_assoc _ _ _
  · -- a determinate sample: a sign change is counted inside the right lane or at the border
    unfold merged mergedState insertBoundary
    ext1
    all_goals dsimp only
    case sampleCount => ring
    case firstDeterminateNumerator =>
      cases left.firstDeterminateNumerator <;> simp
    case firstSign =>
      cases left.firstDeterminateNumerator <;> cases right.firstDeterminateNumerator <;> simp
    case lastDeterminateNumerator => simp
    case lastSign => simp
    case trailingAmbiguityCount => simp
    case internalSignChangeCount =>
      cases left.firstDeterminateNumerator <;> cases right.firstDeterminateNumerator <;>
        simp <;> split <;> simp_all <;> ring

/-- A state without a determinate sample is blank. -/
def Blank (s : CharacterState) : Prop :=
  s.firstDeterminateNumerator = none →
    s.firstSign = 0 ∧ s.lastSign = 0 ∧ s.leadingAmbiguityCount = s.sampleCount

theorem blank_scanState (identity : Identity) (spanFirst : Int) (codes : List Int) :
    Blank (scanState identity spanFirst codes) := by
  induction codes using List.reverseRecOn with
  | nil => exact fun _ => ⟨rfl, rfl, rfl⟩
  | append_singleton codes code ih =>
      rw [scanState_snoc]
      intro hnone
      unfold appendCode at hnone ⊢
      split
      · rename_i hcode
        rw [if_pos hcode] at hnone
        obtain ⟨hfirst, hlast, hleading⟩ := ih hnone
        dsimp only at hnone ⊢
        rw [if_pos hnone, hleading]
        exact ⟨hfirst, hlast, rfl⟩
      · rename_i hcode
        rw [if_neg hcode] at hnone
        cases hnone

/-- An empty lane changes nothing. -/
theorem merged_empty {identity : Identity} {left : CharacterState} (border : Int)
    (hblank : Blank left) (hbrackets : left.bracketRecords = []) :
    merged left (scanState identity border []) = left := by
  unfold merged mergedState insertBoundary
  ext1
  all_goals simp only [scanState, scanFrom, CodeScan.state, CodeScan.closed, leadingCount,
    trailingCount, List.zipIdx_nil, List.foldl_nil, List.length_nil, List.head?_nil,
    List.getLast?_nil, Nat.cast_zero, add_zero, zero_add, joinRanges_nil_right, Option.isSome_none,
    Bool.false_eq_true, if_false, Bool.and_false, Bool.false_and]
  case firstDeterminateNumerator =>
    cases left.firstDeterminateNumerator <;> simp
  case firstSign =>
    cases hfirst : left.firstDeterminateNumerator with
    | some first => simp
    | none => simp [(hblank hfirst).1]
  case lastSign =>
    cases hfirst : left.firstDeterminateNumerator with
    | some first => simp
    | none => simp [(hblank hfirst).2.1]
  case leadingAmbiguityCount =>
    cases hfirst : left.firstDeterminateNumerator with
    | some first => simp
    | none => simp [(hblank hfirst).2.2]
  case bracketRecords => exact hbrackets.symm

/-- **The merge of two scans is the scan of both.** -/
theorem merged_scanState (identity : Identity) (spanFirst : Int) (xs ys : List Int) :
    merged (scanState identity spanFirst xs)
        (scanState identity (spanFirst + xs.length * SOURCE_SAMPLE_NUMERATOR) ys) =
      scanState identity spanFirst (xs ++ ys) := by
  -- on the codes of the right lane, from the last one down
  induction ys using List.reverseRecOn with
  | nil => rw [List.append_nil, merged_empty _ (blank_scanState identity spanFirst xs) rfl]
  | append_singleton ys code ih =>
      have hborder : spanFirst + xs.length * SOURCE_SAMPLE_NUMERATOR =
          nextNumerator spanFirst (scanState identity spanFirst xs) := rfl
      rw [scanState_snoc, merged_appendCode hborder, ih, ← scanState_snoc, List.append_assoc]

end AttestedCompute.CompactV3
