import AttestedCompute.Dirichlet.SignScan

/-!
# Merging is concatenation

The merge of two records forms a monoid on the records that a scan can return: it is
associative wherever the middle record, if it has no determinate sample, counts the same
leading and trailing ambiguity. A single sample is a record too, so a scan is a product
of one-sample records (`scanOf`), and the state of the sequential scan carries exactly
that product (`Carries`).
-/

namespace AttestedCompute.Dirichlet

open Fallible CharacterRecord

/-! ## Joining ranges -/

theorem joinRanges_nil_left (right : List AmbiguityRange) : joinRanges [] right = right := rfl

theorem joinRanges_nil_right (left : List AmbiguityRange) : joinRanges left [] = left := by
  unfold joinRanges
  cases left.getLast? <;> simp

theorem joinRanges_concat_cons (front : List AmbiguityRange) (last head : AmbiguityRange)
    (rest : List AmbiguityRange) : joinRanges (front ++ [last]) (head :: rest)
      = front ++ (if last.stopTNumerator = head.firstTNumerator then
          ⟨last.firstTNumerator, head.stopTNumerator⟩ :: rest else last :: head :: rest) := by
  simp only [joinRanges, List.getLast?_concat, List.dropLast_concat]
  split <;> simp

theorem joinRanges_assoc (a b c : List AmbiguityRange) :
    joinRanges (joinRanges a b) c = joinRanges a (joinRanges b c) := by
  cases a using List.reverseRecOn with
  | nil => rw [joinRanges_nil_left, joinRanges_nil_left]
  | append_singleton front last =>
      cases c with
      | nil => rw [joinRanges_nil_right, joinRanges_nil_right]
      | cons head rest =>
          cases b using List.reverseRecOn with
          | nil => rw [joinRanges_nil_right, joinRanges_nil_left]
          | append_singleton middle final =>
              cases middle with
              | nil =>
                  -- a middle list of one range can be joined at both its ends
                  rw [List.nil_append, joinRanges_concat_cons, ← List.nil_append [final],
                    joinRanges_concat_cons, List.nil_append, List.nil_append]
                  by_cases hleft : last.stopTNumerator = final.firstTNumerator
                  · by_cases hright : final.stopTNumerator = head.firstTNumerator
                    · rw [if_pos hleft, if_pos hright, joinRanges_concat_cons, if_pos hright,
                        joinRanges_concat_cons, if_pos hleft]
                    · rw [if_pos hleft, if_neg hright, joinRanges_concat_cons, if_neg hright,
                        joinRanges_concat_cons, if_pos hleft]
                  · by_cases hright : final.stopTNumerator = head.firstTNumerator
                    · rw [if_neg hleft, if_pos hright, joinRanges_concat_cons, if_neg hleft,
                        ← List.singleton_append, ← List.append_assoc, joinRanges_concat_cons,
                        if_pos hright, List.append_assoc]
                      rfl
                    · rw [if_neg hleft, if_neg hright, joinRanges_concat_cons, if_neg hleft,
                        ← List.singleton_append, ← List.append_assoc, joinRanges_concat_cons,
                        if_neg hright, List.append_assoc]
                      rfl
              | cons first middle =>
                  have hinner : ∀ tail, joinRanges (front ++ [last]) (first :: tail)
                      = joinRanges (front ++ [last]) [first] ++ tail := by
                    intro tail
                    rw [joinRanges_concat_cons, joinRanges_concat_cons, List.append_assoc]
                    split <;> rfl
                  have hright := joinRanges_concat_cons (first :: middle) final head rest
                  rw [List.cons_append, List.cons_append] at hright
                  rw [List.cons_append, hright, hinner, ← List.append_assoc,
                    joinRanges_concat_cons, List.append_assoc]
                  exact (hinner _).symm

/-! ## The monoid of records -/

/-- Without a determinate sample, the leading ambiguity is the trailing one. -/
def Balanced (value : CharacterRecord) : Prop :=
  value.firstDeterminateNumerator = none →
    value.leadingAmbiguityCount = value.trailingAmbiguityCount

theorem merge_firstDeterminate (a b : CharacterRecord) :
    (merge a b).firstDeterminateNumerator
      = if a.firstDeterminateNumerator.isSome then a.firstDeterminateNumerator
        else b.firstDeterminateNumerator := rfl

theorem isSome_merge (a b : CharacterRecord) :
    (merge a b).firstDeterminateNumerator.isSome
      = (a.firstDeterminateNumerator.isSome || b.firstDeterminateNumerator.isSome) := by
  rw [merge_firstDeterminate]
  cases a.firstDeterminateNumerator <;> simp

theorem crosses_merge_left (a b c : CharacterRecord) : crosses (merge a b) c
    = if b.firstDeterminateNumerator.isSome then crosses b c else crosses a c := by
  unfold crosses
  rw [isSome_merge]
  cases hb : b.firstDeterminateNumerator <;> simp [merge, hb]

theorem crosses_merge_right (a b c : CharacterRecord) : crosses a (merge b c)
    = if b.firstDeterminateNumerator.isSome then crosses a b else crosses a c := by
  unfold crosses
  rw [isSome_merge]
  cases hb : b.firstDeterminateNumerator <;> simp [merge, hb]

theorem crosses_of_none_left {a b : CharacterRecord} (h : a.firstDeterminateNumerator = none) :
    crosses a b = false := by simp [crosses, h]

theorem crosses_of_none_right {a b : CharacterRecord} (h : b.firstDeterminateNumerator = none) :
    crosses a b = false := by simp [crosses, h]

/-- The brackets across the two cuts, around those of the middle record. -/
theorem crossing_assoc (a b c : CharacterRecord) (hb : Balanced b)
    (hnone : b.firstDeterminateNumerator = none → b.bracketRecords = []) :
    crossing a b ++ b.bracketRecords ++ crossing (merge a b) c
      = crossing a (merge b c) ++ b.bracketRecords ++ crossing b c := by
  cases hhas : b.firstDeterminateNumerator with
  | none =>
      -- nothing determinate in the middle: one bracket spans it, and its samples count once
      have hbalance := hb hhas
      have hleft : crossing a b = [] := by simp [crossing, crosses_of_none_right hhas]
      have hright : crossing b c = [] := by simp [crossing, crosses_of_none_left hhas]
      rw [hleft, hright, hnone hhas, List.nil_append, List.nil_append, List.append_nil,
        List.append_nil]
      unfold crossing
      rw [crosses_merge_left, crosses_merge_right, hhas]
      by_cases hac : crosses a c = true
      · simp only [hac, Option.isSome_none, if_true, Bool.false_eq_true, if_false, merge, hhas]
        rw [hbalance, Int.add_comm b.trailingAmbiguityCount, Int.add_assoc]
      · simp [hac]
  | some first =>
      have hleft : crossing (merge a b) c = crossing b c := by
        unfold crossing
        rw [crosses_merge_left, hhas]
        simp [merge, hhas]
      have hright : crossing a (merge b c) = crossing a b := by
        unfold crossing
        rw [crosses_merge_right, hhas]
        simp [merge, hhas]
      rw [hleft, hright]

/-- **Merging is associative.** -/
theorem merge_assoc (a b c : CharacterRecord) (hb : Balanced b)
    (hnone : b.firstDeterminateNumerator = none → b.bracketRecords = []) :
    merge (merge a b) c = merge a (merge b c) := by
  have hcross : ∀ {x y : CharacterRecord}, (if crosses x y = true then (1 : Int) else 0)
      = (crossing x y).length := by
    intro x y
    unfold crossing
    split <;> rfl
  have hbrackets := crossing_assoc a b c hb hnone
  have hcount := congrArg List.length hbrackets
  simp only [List.length_append] at hcount
  have hbracketCount : (merge (merge a b) c).bracketCount = (merge a (merge b c)).bracketCount := by
    show a.bracketCount + b.bracketCount + _ + c.bracketCount + _
      = a.bracketCount + (b.bracketCount + c.bracketCount + _) + _
    rw [hcross, hcross, hcross, hcross]
    omega
  refine CharacterRecord.ext rfl rfl rfl (Int.add_assoc ..) ?_ ?_ ?_ ?_ ?_ ?_ (Int.add_assoc ..)
    (Int.add_assoc ..) (Int.add_assoc ..) hbracketCount hbracketCount (joinRanges_assoc ..) ?_
  · by_cases ha : a.firstDeterminateNumerator.isSome = true <;> simp [merge, ha]
  · by_cases ha : a.firstDeterminateNumerator.isSome = true <;> simp [merge, ha]
  · by_cases hc : c.firstDeterminateNumerator.isSome = true <;>
      by_cases hbs : b.firstDeterminateNumerator.isSome = true <;> simp [merge, hc, hbs]
  · by_cases hc : c.firstDeterminateNumerator.isSome = true <;>
      by_cases hbs : b.firstDeterminateNumerator.isSome = true <;> simp [merge, hc, hbs]
  · by_cases ha : a.firstDeterminateNumerator.isSome = true <;> simp [merge, ha, Int.add_assoc]
  · by_cases hc : c.firstDeterminateNumerator.isSome = true <;>
      by_cases hbs : b.firstDeterminateNumerator.isSome = true <;>
      simp [merge, hc, hbs, Int.add_assoc]
  · have hbracketRecords := congrArg (fun middle => a.bracketRecords ++ middle ++ c.bracketRecords)
      hbrackets
    simpa only [merge, List.append_assoc] using hbracketRecords

/-! ## A scan is a product of samples -/

/-- The fields of a record that name the character. -/
structure CharacterIdentity where
  conreyNumber : Int
  primitiveOrdinal : Int
  parity : Int
  deriving DecidableEq, Repr

/-- The record of no samples. -/
def emptyRecord (id : CharacterIdentity) : CharacterRecord where
  conreyNumber := id.conreyNumber
  primitiveOrdinal := id.primitiveOrdinal
  parity := .int id.parity
  sampleCount := 0
  firstDeterminateNumerator := none
  firstSign := .int 0
  lastDeterminateNumerator := none
  lastSign := .int 0
  leadingAmbiguityCount := 0
  trailingAmbiguityCount := 0
  ambiguityCount := 0
  positiveCount := 0
  negativeCount := 0
  bracketCount := 0
  multiplicityLowerBoundSum := 0
  ambiguityRanges := []
  bracketRecords := []

/-- The record of one sample. -/
def single (id : CharacterIdentity) (ordinate : Int) (sign : SignType) : CharacterRecord :=
  if sign = 0 then
    { emptyRecord id with
      sampleCount := 1
      leadingAmbiguityCount := 1
      trailingAmbiguityCount := 1
      ambiguityCount := 1
      ambiguityRanges := [⟨ordinate, ordinate + SOURCE_SAMPLE_NUMERATOR⟩] }
  else
    { emptyRecord id with
      sampleCount := 1
      firstDeterminateNumerator := some ordinate
      firstSign := .int sign
      lastDeterminateNumerator := some ordinate
      lastSign := .int sign
      positiveCount := if sign = 1 then 1 else 0
      negativeCount := if sign = 1 then 0 else 1 }

/-- The record of samples on consecutive ordinates. -/
def scanOf (id : CharacterIdentity) : Int → List SignType → CharacterRecord
  | _, [] => emptyRecord id
  | start, sign :: rest =>
      merge (single id start sign) (scanOf id (start + SOURCE_SAMPLE_NUMERATOR) rest)

/-- What merging keeps: one lower bound for two fields, one ambiguity count at both ends of a
record without determinate samples, and the name. -/
structure WellKept (id : CharacterIdentity) (value : CharacterRecord) : Prop where
  conrey : value.conreyNumber = id.conreyNumber
  ordinal : value.primitiveOrdinal = id.primitiveOrdinal
  parity : value.parity = .int id.parity
  multiplicity : value.multiplicityLowerBoundSum = value.bracketCount
  balanced : Balanced value
  noBrackets : value.firstDeterminateNumerator = none → value.bracketRecords = []
  sameEnds : value.lastDeterminateNumerator.isSome = value.firstDeterminateNumerator.isSome
  noSigns : value.firstDeterminateNumerator = none →
    value.firstSign = .int 0 ∧ value.lastSign = .int 0

variable {id : CharacterIdentity}

theorem wellKept_empty : WellKept id (emptyRecord id) :=
  ⟨rfl, rfl, rfl, rfl, fun _ => rfl, fun _ => rfl, rfl, fun _ => ⟨rfl, rfl⟩⟩

theorem wellKept_single (ordinate : Int) (sign : SignType) : WellKept id (single id ordinate sign) := by
  unfold single
  split
  · exact ⟨rfl, rfl, rfl, rfl, fun _ => rfl, fun _ => rfl, rfl, fun _ => ⟨rfl, rfl⟩⟩
  · refine ⟨rfl, rfl, rfl, rfl, fun h => ?_, fun _ => rfl, rfl, fun h => ?_⟩ <;> cases h

theorem wellKept_merge {a b : CharacterRecord} (ha : WellKept id a) (hb : WellKept id b) :
    WellKept id (merge a b) := by
  have hnone : (merge a b).firstDeterminateNumerator = none →
      a.firstDeterminateNumerator = none ∧ b.firstDeterminateNumerator = none := by
    intro h
    rw [← Option.isNone_iff_eq_none, ← Option.not_isSome, isSome_merge] at h
    simpa using h
  refine ⟨ha.conrey, ha.ordinal, ha.parity, rfl, fun h => ?_, fun h => ?_, ?_, fun h => ?_⟩
  · obtain ⟨hna, hnb⟩ := hnone h
    have hbala := ha.balanced hna
    have hbalb := hb.balanced hnb
    simp only [merge, hna, hnb, Option.isSome_none, Bool.false_eq_true, if_false]
    omega
  · obtain ⟨hna, hnb⟩ := hnone h
    simp [merge, crossing, crosses, hna, ha.noBrackets hna, hb.noBrackets hnb]
  · have hea := ha.sameEnds
    have heb := hb.sameEnds
    rw [isSome_merge]
    by_cases h : b.firstDeterminateNumerator.isSome = true <;> simp [merge, h, hea, heb]
  · obtain ⟨hna, hnb⟩ := hnone h
    simp [merge, hna, hnb, (ha.noSigns hna).2, (hb.noSigns hnb).1]

theorem wellKept_scanOf (start : Int) (xs : List SignType) : WellKept id (scanOf id start xs) := by
  induction xs generalizing start with
  | nil => exact wellKept_empty
  | cons sign rest ih => exact wellKept_merge (wellKept_single start sign) (ih _)

theorem merge_empty_left {value : CharacterRecord} (h : WellKept id value) :
    merge (emptyRecord id) value = value := by
  refine CharacterRecord.ext h.conrey.symm h.ordinal.symm h.parity.symm (Int.zero_add _) rfl rfl
    ?_ ?_ (Int.zero_add _) ?_ (Int.zero_add _) (Int.zero_add _) (Int.zero_add _) ?_ ?_ rfl ?_
  · have hends := h.sameEnds
    cases hlast : value.lastDeterminateNumerator <;> simp_all [merge, emptyRecord]
  · cases hfirst : value.firstDeterminateNumerator with
    | none => simp [merge, emptyRecord, hfirst, (h.noSigns hfirst).2]
    | some first => simp [merge, hfirst]
  · simp [merge, emptyRecord]
  · simp [merge, crosses, emptyRecord]
  · simp [merge, crosses, emptyRecord, h.multiplicity]
  · simp [merge, crossing, crosses, emptyRecord]

theorem merge_empty_right {value : CharacterRecord} (h : WellKept id value) :
    merge value (emptyRecord id) = value := by
  refine CharacterRecord.ext rfl rfl rfl (Int.add_zero _) ?_ ?_ rfl rfl ?_ (Int.zero_add _)
    (Int.add_zero _) (Int.add_zero _) (Int.add_zero _) ?_ ?_ (joinRanges_nil_right _) ?_
  · cases hfirst : value.firstDeterminateNumerator <;> simp [merge, emptyRecord, hfirst]
  · cases hfirst : value.firstDeterminateNumerator with
    | none => simp [merge, emptyRecord, hfirst, (h.noSigns hfirst).1]
    | some first => simp [merge, hfirst]
  · simp [merge, emptyRecord]
  · simp [merge, crosses, emptyRecord]
  · simp [merge, crosses, emptyRecord, h.multiplicity]
  · simp [merge, crossing, crosses, emptyRecord]

/-- The ordinate after a number of samples. -/
def after (start : Int) (count : Nat) : Int := start + count * SOURCE_SAMPLE_NUMERATOR

theorem after_succ (start : Int) (count : Nat) :
    after start (count + 1) = after (start + SOURCE_SAMPLE_NUMERATOR) count := by
  simp only [after, SOURCE_SAMPLE_NUMERATOR]
  omega

/-- **A scan of two chunks in a row is the merge of their scans.** -/
theorem scanOf_append (start : Int) (xs ys : List SignType) :
    scanOf id start (xs ++ ys)
      = merge (scanOf id start xs) (scanOf id (after start xs.length) ys) := by
  induction xs generalizing start with
  | nil =>
      rw [List.nil_append, scanOf, merge_empty_left (wellKept_scanOf _ _)]
      simp [after]
  | cons sign xs ih =>
      have hkept : WellKept id (scanOf id (start + SOURCE_SAMPLE_NUMERATOR) xs) :=
        wellKept_scanOf _ _
      rw [List.cons_append, scanOf, ih, scanOf, merge_assoc _ _ _ hkept.balanced hkept.noBrackets,
        List.length_cons, after_succ]

theorem scanOf_singleton (start : Int) (sign : SignType) :
    scanOf id start [sign] = single id start sign :=
  merge_empty_right (wellKept_single start sign)

/-! ## The sequential scan -/

/-- A fresh state. -/
def fresh (id : CharacterIdentity) : CharacterChunkState where
  conreyNumber := id.conreyNumber
  primitiveOrdinal := id.primitiveOrdinal
  parity := id.parity

/-- Feed samples on consecutive ordinates. -/
def feed : CharacterChunkState → Int → List SignType → Checked CharacterChunkState
  | s, _, [] => pure s
  | s, ordinate, sign :: rest => do
      let s' ← s.observe ordinate sign
      feed s' (ordinate + SOURCE_SAMPLE_NUMERATOR) rest

/-- Feed the samples to a fresh state and take the record. -/
def scanRecord (id : CharacterIdentity) (start : Int) (xs : List SignType) :
    Checked CharacterRecord := do
  let s ← feed (fresh id) start xs
  s.record

/-- The range still open, as far as it goes. -/
def openRanges (s : CharacterChunkState) : List AmbiguityRange :=
  match s.openAmbiguityStart, s.previousNumerator with
  | some start, some previous => [⟨start, previous + SOURCE_SAMPLE_NUMERATOR⟩]
  | _, _ => []

/-- **The state carries the record** of what it has seen. -/
structure Carries (s : CharacterChunkState) (value : CharacterRecord) : Prop where
  record : s.recordWith (openRanges s) = value
  opened : s.openAmbiguityStart.isSome → s.previousNumerator.isSome
  /-- The closed ranges end at or before the last sample. -/
  closed : ∀ range ∈ s.ambiguityRanges.getLast?, ∃ previous ∈ s.previousNumerator,
    range.stopTNumerator ≤ previous
  sameEnds : s.lastDeterminateNumerator.isSome = s.firstDeterminateNumerator.isSome

/-- The ordinate comes next. -/
def Follows (s : CharacterChunkState) (ordinate : Int) : Prop :=
  ∀ previous ∈ s.previousNumerator, ordinate = previous + SOURCE_SAMPLE_NUMERATOR

variable {s : CharacterChunkState} {value : CharacterRecord} {ordinate : Int}

theorem carries_fresh : Carries (fresh id) (emptyRecord id) := by
  refine ⟨rfl, fun h => ?_, fun range h => ?_, rfl⟩
  · cases h
  · cases h

theorem closedRange_eq (h : Carries s value) (hnext : Follows s ordinate) :
    s.closedRange ordinate = openRanges s := by
  unfold CharacterChunkState.closedRange openRanges
  cases hopen : s.openAmbiguityStart with
  | none => rfl
  | some start =>
      obtain ⟨previous, hprevious⟩ := Option.isSome_iff_exists.mp (h.opened (by rw [hopen]; rfl))
      rw [hprevious, hnext previous hprevious]

/-- One more ambiguous sample extends the open range or opens one. -/
theorem joinRanges_open (h : Carries s value) (hnext : Follows s ordinate) :
    joinRanges (s.ambiguityRanges ++ openRanges s)
        [⟨ordinate, ordinate + SOURCE_SAMPLE_NUMERATOR⟩]
      = s.ambiguityRanges
        ++ [⟨s.openAmbiguityStart.getD ordinate, ordinate + SOURCE_SAMPLE_NUMERATOR⟩] := by
  rw [← closedRange_eq h hnext]
  unfold CharacterChunkState.closedRange
  cases hopen : s.openAmbiguityStart with
  | some start => rw [joinRanges_concat_cons, if_pos rfl]; rfl
  | none =>
      rw [List.append_nil, Option.getD_none]
      cases hranges : s.ambiguityRanges using List.reverseRecOn with
      | nil => rfl
      | append_singleton front last =>
          -- the last closed range ends before the new sample
          obtain ⟨previous, hprevious, hle⟩ := h.closed last (by rw [hranges]; simp)
          have hordinate := hnext previous hprevious
          rw [joinRanges_concat_cons, if_neg, List.append_assoc]
          · rfl
          · simp only [SOURCE_SAMPLE_NUMERATOR] at hordinate
            simp only
            omega

theorem carries_ambiguous (h : Carries s value) (hid : WellKept id value)
    (hnext : Follows s ordinate) :
    Carries ({ s with sampleCount := s.sampleCount + 1 }.observeAmbiguous ordinate)
      (merge value (single id ordinate 0)) := by
  refine ⟨?_, fun _ => rfl, fun range hrange => ?_, h.sameEnds⟩
  · have hranges := (joinRanges_open h hnext).symm
    have hends := h.sameEnds
    obtain rfl := h.record
    have hcross : crosses (s.recordWith (openRanges s)) (single id ordinate 0) = false :=
      crosses_of_none_right rfl
    have hcount : s.bracketCount = s.bracketCount + 0 + if crosses (s.recordWith (openRanges s))
        (single id ordinate 0) then 1 else 0 := by simp [hcross]
    refine CharacterRecord.ext rfl rfl rfl rfl ?_ ?_ rfl rfl ?_ (Int.add_comm ..) rfl
      (Int.add_zero _).symm (Int.add_zero _).symm hcount hcount hranges ?_
    · show s.firstDeterminateNumerator = if s.firstDeterminateNumerator.isSome then _ else none
      cases hfirst : s.firstDeterminateNumerator with
      | none => rfl
      | some first => exact hfirst.symm
    · show PyInt.int s.firstSign = if s.firstDeterminateNumerator.isSome then _ else .int 0
      cases hfirst : s.firstDeterminateNumerator with
      | none => exact (hid.noSigns hfirst).1
      | some first => rfl
    · show (if s.firstDeterminateNumerator = none then _ else _)
        = s.leadingAmbiguityCount + if s.firstDeterminateNumerator.isSome then 0 else 1
      cases s.firstDeterminateNumerator with
      | none => rfl
      | some first => exact (Int.add_zero _).symm
    · show s.bracketRecords = s.bracketRecords ++ crossing _ _ ++ []
      rw [crossing, hcross]
      simp
  · obtain ⟨previous, hprevious, hle⟩ := h.closed range hrange
    have hordinate := hnext previous hprevious
    refine ⟨ordinate, rfl, ?_⟩
    simp only [SOURCE_SAMPLE_NUMERATOR] at hordinate
    omega

theorem carries_determinate (h : Carries s value) (hid : WellKept id value)
    (hnext : Follows s ordinate) {sign : SignType} (hsign : sign ≠ 0) :
    Carries ({ s with sampleCount := s.sampleCount + 1 }.observeDeterminate ordinate sign)
      (merge value (single id ordinate sign)) := by
  have hclosed := closedRange_eq h hnext
  refine ⟨?_, fun _ => rfl, fun range hrange => ?_, rfl⟩
  · have hends := h.sameEnds
    obtain rfl := h.record
    have hsingle : single id ordinate sign = { emptyRecord id with
      sampleCount := 1
      firstDeterminateNumerator := some ordinate
      firstSign := .int sign
      lastDeterminateNumerator := some ordinate
      lastSign := .int sign
      positiveCount := if sign = 1 then 1 else 0
      negativeCount := if sign = 1 then 0 else 1 } := if_neg hsign
    have hbracket : s.newBracket ordinate sign
        = crossing (s.recordWith (openRanges s)) (single id ordinate sign) := by
      rw [hsingle, crossing, crosses, CharacterChunkState.newBracket]
      show _ = if (s.firstDeterminateNumerator.isSome && true
        && decide (s.lastSign ≠ (sign : Int))) = true then [(_ : BracketRecord)] else []
      rw [← hends]
      cases hlast : s.lastDeterminateNumerator with
      | none => rfl
      | some last =>
          have hrecord : (s.recordWith (openRanges s)).lastDeterminateNumerator = some last := hlast
          simp only [hrecord, Option.isSome_some, Bool.and_true, Bool.true_and, decide_eq_true_eq,
            Option.getD_some, emptyRecord, Int.add_zero]
          rfl
    have hcount : s.bracketCount + (s.newBracket ordinate sign).length
        = s.bracketCount + 0 + if crosses (s.recordWith (openRanges s))
          (single id ordinate sign) then 1 else 0 := by
      rw [hbracket, crossing]
      split <;> simp_all
    rw [hsingle] at hbracket hcount ⊢
    refine CharacterRecord.ext rfl rfl rfl rfl ?_ ?_ rfl rfl ?_ rfl ?_ ?_ ?_ hcount hcount ?_ ?_
    · show some (s.firstDeterminateNumerator.getD ordinate)
        = if s.firstDeterminateNumerator.isSome then s.firstDeterminateNumerator else some ordinate
      cases s.firstDeterminateNumerator <;> rfl
    · show PyInt.int (if s.firstDeterminateNumerator = none then _ else _)
        = if s.firstDeterminateNumerator.isSome then .int s.firstSign else .int sign
      cases s.firstDeterminateNumerator <;> rfl
    · show s.leadingAmbiguityCount
        = s.leadingAmbiguityCount + if s.firstDeterminateNumerator.isSome then 0 else 0
      simp
    · exact (Int.add_zero _).symm
    · show (if (sign : Int) > 0 then _ else _) = s.positiveCount + if sign = 1 then 1 else 0
      revert hsign
      cases sign <;> simp
    · show (if (sign : Int) > 0 then _ else _) = s.negativeCount + if sign = 1 then 0 else 1
      revert hsign
      cases sign <;> simp
    · show s.ambiguityRanges ++ s.closedRange ordinate ++ [] = joinRanges (_ ++ _) []
      rw [hclosed, joinRanges_nil_right, List.append_nil]
    · show s.bracketRecords ++ s.newBracket ordinate sign = s.bracketRecords ++ crossing _ _ ++ []
      rw [hbracket, List.append_nil]
  · -- a range that the sample closes ends at it, and the others ended before
    refine ⟨ordinate, rfl, ?_⟩
    have hrange : range ∈ (s.ambiguityRanges ++ s.closedRange ordinate).getLast? := hrange
    unfold CharacterChunkState.closedRange at hrange
    cases hopen : s.openAmbiguityStart with
    | some start =>
        rw [hopen, List.getLast?_concat, Option.mem_some_iff] at hrange
        rw [← hrange]
    | none =>
        rw [hopen, List.append_nil] at hrange
        obtain ⟨previous, hprevious, hle⟩ := h.closed range hrange
        have hordinate := hnext previous hprevious
        simp only [SOURCE_SAMPLE_NUMERATOR] at hordinate
        omega

/-- **One sample.** The state goes on to carry the record with the sample merged in. -/
theorem observe_carries (h : Carries s value) (hid : WellKept id value)
    (hnext : Follows s ordinate) (hlow : 0 ≤ ordinate) (hhigh : ordinate ≤ MAX_EVENT_COUNT)
    (hcount : value.sampleCount < MAX_EVENT_COUNT) (sign : SignType) :
    ∃ s', s.observe ordinate sign = .ok s' ∧ s'.previousNumerator = some ordinate
      ∧ Carries s' (merge value (single id ordinate sign)) := by
  have hcheck : s.checkOrdinate ordinate = .ok () := by
    have hsamples : s.sampleCount = value.sampleCount := congrArg (·.sampleCount) h.record
    simp only [CharacterChunkState.checkOrdinate, bind_ok, failIf_ok]
    refine ⟨(), not_not_intro ⟨hlow, hhigh⟩, (), ?_, by omega⟩
    rintro ⟨previous, hprevious, hne⟩
    exact hne (hnext previous hprevious)
  unfold CharacterChunkState.observe
  rw [hcheck]
  by_cases hsign : sign = 0
  · subst hsign
    exact ⟨_, rfl, rfl, carries_ambiguous h hid hnext⟩
  · have hint : (sign : Int) = -1 ∨ (sign : Int) = 1 := by
      revert hsign
      cases sign <;> simp
    have hne : (sign : Int) ≠ 0 := by omega
    refine ⟨_, ?_, ?_, carries_determinate h hid hnext hsign⟩
    · show (if (sign : Int) = 0 then _ else _) = _
      rw [if_neg hne]
      simp [failIf, refuseIf, hint]
    · rfl

/-- The ordinates of the samples fit the grid. -/
def InGrid (start : Int) (count : Nat) : Prop :=
  ∀ i < count, 0 ≤ after start i ∧ after start i ≤ MAX_EVENT_COUNT - SOURCE_SAMPLE_NUMERATOR

theorem InGrid.tail {start : Int} {count : Nat} (h : InGrid start (count + 1)) :
    InGrid (start + SOURCE_SAMPLE_NUMERATOR) count := by
  intro i hi
  rw [← after_succ]
  exact h (i + 1) (Nat.succ_lt_succ hi)

/-- **A run of samples.** -/
theorem feed_carries (xs : List SignType) (h : Carries s value) (hid : WellKept id value)
    (hnext : Follows s ordinate) (hgrid : InGrid ordinate xs.length)
    (hcount : 0 ≤ ordinate → value.sampleCount ≤ ordinate)
    (hprevious : ∀ previous ∈ s.previousNumerator,
      previous ≤ MAX_EVENT_COUNT - SOURCE_SAMPLE_NUMERATOR) :
    ∃ s', feed s ordinate xs = .ok s' ∧ Carries s' (merge value (scanOf id ordinate xs))
      ∧ ∀ previous ∈ s'.previousNumerator,
        previous ≤ MAX_EVENT_COUNT - SOURCE_SAMPLE_NUMERATOR := by
  induction xs generalizing s value ordinate with
  | nil => exact ⟨s, rfl, by rwa [scanOf, merge_empty_right hid], hprevious⟩
  | cons sign xs ih =>
      obtain ⟨hlow, hhigh⟩ := hgrid 0 (Nat.zero_lt_succ _)
      simp only [after, Int.natCast_zero, Int.zero_mul, Int.add_zero] at hlow hhigh
      have hsamples := hcount hlow
      have hstep : (5 : Int) = SOURCE_SAMPLE_NUMERATOR := rfl
      obtain ⟨s₁, hobserve, hlast, hcarries⟩ := observe_carries h hid hnext hlow (by omega)
        (by omega) sign
      have hkept := wellKept_merge hid (wellKept_single ordinate sign)
      have hone : (single id ordinate sign).sampleCount = 1 := by
        unfold single
        split <;> rfl
      obtain ⟨s', hfeed, hrest, hend⟩ := ih hcarries hkept
        (fun previous hp => by rw [hlast, Option.mem_some_iff] at hp; rw [hp]) hgrid.tail
        (fun _ => by
          show value.sampleCount + (single id ordinate sign).sampleCount ≤ _
          omega)
        (fun previous hp => by
          rw [hlast, Option.mem_some_iff] at hp
          omega)
      refine ⟨s', ?_, ?_, hend⟩
      · rw [feed, hobserve]
        exact hfeed
      · have hsingle : WellKept id (single id ordinate sign) := wellKept_single ordinate sign
        rwa [scanOf, ← merge_assoc _ _ _ hsingle.balanced hsingle.noBrackets]

/-- The record of a state is the one it carries, once that is validated. -/
theorem record_of_carries (h : Carries s value)
    (hprevious : ∀ previous ∈ s.previousNumerator,
      previous ≤ MAX_EVENT_COUNT - SOURCE_SAMPLE_NUMERATOR) :
    s.record = (do value.validate; pure value) := by
  have hopen : s.openRange = .ok (openRanges s) := by
    unfold CharacterChunkState.openRange openRanges
    cases hstart : s.openAmbiguityStart with
    | none => rfl
    | some start =>
        obtain ⟨previous, hlast⟩ := Option.isSome_iff_exists.mp (h.opened (by rw [hstart]; rfl))
        have hle := hprevious previous hlast
        rw [hlast]
        simp only [bind_ok, failIf_ok, pure_ok]
        exact ⟨(), by omega, trivial⟩
  have hrecord := h.record
  unfold CharacterChunkState.record
  rw [hopen]
  show (do (s.recordWith (openRanges s)).validate; pure (s.recordWith (openRanges s))) = _
  rw [hrecord]

/-- **A scan of samples on the grid returns their product, once that is validated.** -/
theorem scanRecord_eq {start : Int} {xs : List SignType} (hgrid : InGrid start xs.length) :
    scanRecord id start xs = (do (scanOf id start xs).validate; pure (scanOf id start xs)) := by
  obtain ⟨s', hfeed, hcarries, hprevious⟩ := feed_carries xs (carries_fresh : Carries (fresh id) _)
    wellKept_empty (fun _ h => by cases h) hgrid (fun h => h) (fun _ h => by cases h)
  rw [merge_empty_left (wellKept_scanOf start xs)] at hcarries
  rw [scanRecord, hfeed]
  exact record_of_carries hcarries hprevious

/-- A scan succeeds with a valid record. -/
theorem scanRecord_ok {start : Int} {xs : List SignType} (hgrid : InGrid start xs.length)
    {made : CharacterRecord} : scanRecord id start xs = .ok made
      ↔ (scanOf id start xs).validate = .ok () ∧ scanOf id start xs = made := by
  rw [scanRecord_eq hgrid]
  simp only [bind_ok, pure_ok]
  refine ⟨fun h => ?_, fun h => ⟨(), h⟩⟩
  obtain ⟨_, hvalid⟩ := h
  exact hvalid

end AttestedCompute.Dirichlet
