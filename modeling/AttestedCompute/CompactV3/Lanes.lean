import AttestedCompute.CompactV3.LaneMerge
import AttestedCompute.Lib.Threaded

/-!
# Finalizing lanes

`finalize_compact_state_v3_lanes` walks the roster once and merges, for every character, the states
of all lanes in order. The flat scan that this replaces is never run; the two agree for every cut
into lanes and for every chunking of a lane's codes.
-/

namespace AttestedCompute.CompactV3

open Fallible

def MAXIMUM_LANES : Nat := 8

/-- The state of one character in one lane, under the lane's header. -/
structure LaneState where
  first : Int
  stop : Int
  state : CharacterState

/-- The loop over the lanes of one character. -/
def mergeLanes (debug : Bool) : CharacterState → Int → Int → List LaneState → Checked CharacterState
  | current, _, _, [] => pure current
  | current, currentFirst, currentStop, lane :: lanes => do
      let current ← mergeCharacterStates current lane.state currentFirst currentStop lane.first
        lane.stop debug
      mergeLanes debug current currentFirst lane.stop lanes

/-- The merge of one character. -/
def mergeCharacter (debug : Bool) (lanes : List LaneState) : Checked CharacterState :=
  match lanes with
  | [] => .error (.failed "v3 finalizer requires 1..8 lanes")
  | lane :: lanes => mergeLanes debug lane.state lane.first lane.stop lanes

/-- A lane: its header's span and the states that its artifact holds. -/
structure Lane where
  first : Int
  stop : Int
  states : List CharacterState

/-- `next(iterator)` -/
def Lane.next (lane : Lane) : Checked LaneState :=
  match lane.states with
  | [] => .error (.failed "v3 lane ended before the complete roster")
  | state :: _ => pure ⟨lane.first, lane.stop, state⟩

def Lane.rest (lane : Lane) : Lane := { lane with states := lane.states.tail }

/-- The generator `merged_states`, run to its end. -/
def mergedStates (debug : Bool) : Nat → Nat → List Lane → Checked (List CharacterState)
  | _, 0, lanes => do
      failIf (∃ lane ∈ lanes, lane.states ≠ [])
        "v3 lane contains characters after the complete roster"
      pure []
  | ordinal, count + 1, lanes => do
      let heads ← lanes.mapM Lane.next
      let current ← mergeCharacter debug heads
      failIf (current.primitiveOrdinal ≠ ordinal) "v3 merged primitive ordinals differ"
      let states ← mergedStates debug (ordinal + 1) count (lanes.map Lane.rest)
      pure (current :: states)

/-- The lanes of the finalizer, merged for the whole roster. -/
def finalizeLanes (debug : Bool) (primitiveCount : Nat) (lanes : List Lane) :
    Checked (List CharacterState) := do
  failIf (¬ (1 ≤ lanes.length ∧ lanes.length ≤ MAXIMUM_LANES)) "v3 finalizer requires 1..8 lanes"
  failIf (¬ lanes.IsChain fun left right => left.stop = right.first)
    "v3 lane roster, mode, or exact adjacency differs"
  mergedStates debug 0 primitiveCount lanes

/-! ## One character -/

/-- A lane's part of the codes of one character. -/
structure Part where
  first : Int
  stop : Int
  codes : List Int

/-- The part has one code for each sample of its span. -/
def Part.Full (part : Part) : Prop :=
  part.stop = part.first + part.codes.length * SOURCE_SAMPLE_NUMERATOR

def Part.laneState (identity : Identity) (part : Part) : LaneState :=
  ⟨part.first, part.stop, scanState identity part.first part.codes⟩

/-- The codes of all parts in order. -/
def partCodes (parts : List Part) : List Int := parts.flatMap Part.codes

theorem samples_div (first : Int) (n : Nat) :
    (first + n * SOURCE_SAMPLE_NUMERATOR - first) / SOURCE_SAMPLE_NUMERATOR = n := by
  unfold SOURCE_SAMPLE_NUMERATOR
  omega

/-- The first and the last determinate sample are both there, or neither is. -/
theorem isSome_scanState (identity : Identity) (spanFirst : Int) (codes : List Int) :
    (scanState identity spanFirst codes).lastDeterminateNumerator.isSome =
      (scanState identity spanFirst codes).firstDeterminateNumerator.isSome := by
  induction codes using List.reverseRecOn with
  | nil => rfl
  | append_singleton codes code ih =>
      rw [scanState_snoc]
      unfold appendCode
      split
      · exact ih
      · rfl

/-- A state with other bracket rows. -/
def withBrackets (s : CharacterState) (brackets : List DebugBracket) : CharacterState :=
  { s with bracketRecords := brackets }

theorem withBrackets_scanState (identity : Identity) (spanFirst : Int) (codes : List Int) :
    withBrackets (scanState identity spanFirst codes) [] = scanState identity spanFirst codes := rfl

/-- The bracket rows of a merge exist, and production mode keeps none. -/
theorem mergedBrackets_ok {left right : CharacterState}
    (hleft : left.lastDeterminateNumerator.isSome = left.firstDeterminateNumerator.isSome)
    (debug : Bool) :
    ∃ brackets, mergedBrackets left right (insertBoundary left right) debug = .ok brackets ∧
      (debug = false → brackets = []) := by
  cases debug with
  | false => exact ⟨[], rfl, fun _ => rfl⟩
  | true =>
      unfold mergedBrackets
      by_cases hinsert : insertBoundary left right = true
      · have hboth := hinsert
        simp only [insertBoundary, Bool.and_eq_true] at hboth
        obtain ⟨upper, hupper⟩ := Option.isSome_iff_exists.mp hboth.1.2
        obtain ⟨lower, hlower⟩ := Option.isSome_iff_exists.mp (hleft.trans hboth.1.1)
        rw [if_pos rfl, if_pos hinsert, boundaryBracket, hlower, hupper]
        exact ⟨_, rfl, fun h => (by cases h)⟩
      · rw [if_pos rfl, if_neg hinsert]
        exact ⟨_, rfl, fun h => (by cases h)⟩

/-- Two adjacent scans merge to the scan of both; only bracket rows depend on the mode. -/
theorem mergeCharacterStates_scan (identity : Identity) (spanFirst : Int) (xs ys : List Int)
    (debug : Bool) (brackets : List DebugBracket) {border stop : Int}
    (hborder : border = spanFirst + xs.length * SOURCE_SAMPLE_NUMERATOR)
    (hstop : stop = border + ys.length * SOURCE_SAMPLE_NUMERATOR) :
    ∃ brackets', mergeCharacterStates (withBrackets (scanState identity spanFirst xs) brackets)
        (scanState identity border ys) spanFirst border border stop debug =
          .ok (withBrackets (scanState identity spanFirst (xs ++ ys)) brackets') ∧
      (debug = false → brackets' = []) := by
  obtain ⟨brackets', hbrackets, hempty⟩ := @mergedBrackets_ok
    (withBrackets (scanState identity spanFirst xs) brackets) (scanState identity border ys)
    (isSome_scanState identity spanFirst xs) debug
  refine ⟨brackets', ?_, hempty⟩
  have hmerged := merged_scanState identity spanFirst xs ys
  rw [← hborder] at hmerged
  simp only [mergeCharacterStates, bind_ok, failIf_ok, not_not]
  refine ⟨(), trivial, (), ?_, brackets', hbrackets, ?_⟩
  · intro h
    rcases h with h | h | h
    · exact h rfl
    · exact h rfl
    · exact h rfl
  · rw [← hmerged, hstop, samples_div, hborder, samples_div]
    rfl

/-- **The lanes of one character merge to the scan of all their codes.** -/
theorem mergeLanes_scan (identity : Identity) (spanFirst : Int) (xs : List Int) (debug : Bool)
    (brackets : List DebugBracket) {parts : List Part} {border stop : Int}
    (hborder : border = spanFirst + xs.length * SOURCE_SAMPLE_NUMERATOR)
    (hfull : ∀ part ∈ parts, part.Full)
    (hthread : Threaded Part.first Part.stop border parts stop) :
    ∃ brackets', mergeLanes debug (withBrackets (scanState identity spanFirst xs) brackets)
        spanFirst border (parts.map (Part.laneState identity)) =
          .ok (withBrackets (scanState identity spanFirst (xs ++ partCodes parts)) brackets') ∧
      (debug = false → brackets = [] → brackets' = []) := by
  induction parts generalizing xs brackets border with
  | nil =>
      refine ⟨brackets, ?_, fun _ h => h⟩
      rw [partCodes, List.flatMap_nil, List.append_nil]
      rfl
  | cons part parts ih =>
      obtain ⟨hfirst, hrest⟩ := hthread
      have hpart := hfull part List.mem_cons_self
      rw [Part.Full, hfirst] at hpart
      obtain ⟨brackets', hmerge, hempty⟩ :=
        mergeCharacterStates_scan identity spanFirst xs part.codes debug brackets hborder hpart
      have hstop : part.stop = spanFirst + (xs ++ part.codes).length * SOURCE_SAMPLE_NUMERATOR := by
        rw [hpart, hborder, List.length_append]
        push_cast
        ring
      obtain ⟨brackets'', hlanes, hempty'⟩ := ih (xs ++ part.codes) brackets' hstop
        (fun p hp => hfull p (List.mem_cons_of_mem part hp)) hrest
      refine ⟨brackets'', ?_, fun hdebug _ => hempty' hdebug (hempty hdebug)⟩
      rw [List.map_cons, mergeLanes, bind_ok]
      refine ⟨withBrackets (scanState identity spanFirst (xs ++ part.codes)) brackets', ?_, ?_⟩
      · rw [Part.laneState, hfirst]
        exact hmerge
      · rw [partCodes, List.flatMap_cons, ← List.append_assoc]
        exact hlanes

theorem mergeCharacter_scan (identity : Identity) (debug : Bool) {part : Part} {parts : List Part}
    {stop : Int} (hfull : ∀ p ∈ part :: parts, p.Full)
    (hthread : Threaded Part.first Part.stop part.first (part :: parts) stop) :
    ∃ brackets, mergeCharacter debug ((part :: parts).map (Part.laneState identity)) =
        .ok (withBrackets (scanState identity part.first (partCodes (part :: parts))) brackets) ∧
      (debug = false → brackets = []) := by
  obtain ⟨brackets, hmerge, hempty⟩ := mergeLanes_scan identity part.first part.codes debug []
    (hfull part List.mem_cons_self) (fun p hp => hfull p (List.mem_cons_of_mem part hp)) hthread.2
  exact ⟨brackets, hmerge, fun hdebug => hempty hdebug rfl⟩

/-! ## The whole roster -/

/-- **The states of a lane are the scans of consecutive rows of its codes.** -/
theorem characterStates_ok {spanFirst : Int} {samples : Nat} {roster : List Identity}
    {codes rest : List Int} {states : List CharacterState} :
    characterStates spanFirst samples roster codes = .ok (states, rest) ↔
      ∃ rows : List (List Int), codes = rows.flatten ++ rest ∧ rows.length = roster.length ∧
        (∀ row ∈ rows, row.length = samples ∧ ∀ code ∈ row, IsCode code) ∧
        states = List.zipWith (scanState · spanFirst) roster rows := by
  induction roster generalizing codes rest states with
  | nil =>
      rw [characterStates, pure_ok, Prod.mk.injEq]
      constructor
      · intro h
        exact ⟨[], h.2, rfl, fun row hrow => (by cases hrow), h.1.symm⟩
      · intro h
        obtain ⟨rows, hrows, hlength, _, hstates⟩ := h
        rw [List.length_eq_zero_iff.mp hlength] at hrows hstates
        exact ⟨hstates.symm, hrows⟩
  | cons identity roster ih =>
      simp only [characterStates, bind_ok, Prod.exists, stateFromCodes_ok, ih, pure_ok,
        Prod.mk.injEq]
      constructor
      · intro h
        obtain ⟨state, rest', ⟨row, hrow, hlength, hvalid, rfl⟩, states', rest'',
          ⟨rows, hrows, hcount, hall, rfl⟩, rfl, rfl⟩ := h
        refine ⟨row :: rows, ?_, by rw [List.length_cons, List.length_cons, hcount], ?_, rfl⟩
        · rw [hrow, hrows, List.flatten_cons, List.append_assoc]
        · intro r hr
          rcases List.mem_cons.mp hr with rfl | hr
          · exact ⟨hlength, hvalid⟩
          · exact hall r hr
      · intro h
        obtain ⟨rows, hrows, hcount, hall, rfl⟩ := h
        cases rows with
        | nil => cases hcount
        | cons row rows =>
            have hrow := hall row List.mem_cons_self
            rw [List.flatten_cons, List.append_assoc] at hrows
            rw [List.length_cons, List.length_cons] at hcount
            exact ⟨_, _, ⟨row, hrows, hrow.1, hrow.2, rfl⟩, _, _,
              ⟨rows, rfl, by omega, fun r hr => hall r (List.mem_cons_of_mem row hr), rfl⟩, rfl, rfl⟩

/-- A lane's codes, cut into one row for each character. -/
structure Page where
  first : Int
  stop : Int
  rows : List (List Int)

/-- One row for each character and one code for each sample. -/
def Page.Full (count : Nat) (page : Page) : Prop :=
  page.rows.length = count ∧
    ∀ row ∈ page.rows, page.stop = page.first + row.length * SOURCE_SAMPLE_NUMERATOR

def Page.lane (roster : List Identity) (page : Page) : Lane :=
  ⟨page.first, page.stop, List.zipWith (scanState · page.first) roster page.rows⟩

/-- The part of the first character. -/
def Page.head (page : Page) : Part := ⟨page.first, page.stop, page.rows.headD []⟩

def Page.tail (page : Page) : Page := { page with rows := page.rows.tail }

/-- The rows of the flat run: for each character the codes of all lanes in order. -/
def flatRows : Nat → List Page → List (List Int)
  | 0, _ => []
  | count + 1, pages => pages.flatMap (fun page => page.rows.headD []) ::
      flatRows count (pages.map Page.tail)

theorem length_flatRows (count : Nat) (pages : List Page) : (flatRows count pages).length = count := by
  induction count generalizing pages with
  | zero => rfl
  | succ count ih => rw [flatRows, List.length_cons, ih]

theorem threaded_map {start stop : Int} {pages : List Page} (f : Page → Page)
    (hfirst : ∀ page, (f page).first = page.first) (hstop : ∀ page, (f page).stop = page.stop)
    (h : Threaded Page.first Page.stop start pages stop) :
    Threaded Page.first Page.stop start (pages.map f) stop := by
  induction pages generalizing start with
  | nil => exact h
  | cons page pages ih => exact ⟨(hfirst page).trans h.1, by rw [hstop]; exact ih h.2⟩

theorem threaded_head {start stop : Int} {pages : List Page}
    (h : Threaded Page.first Page.stop start pages stop) :
    Threaded Part.first Part.stop start (pages.map Page.head) stop := by
  induction pages generalizing start with
  | nil => exact h
  | cons page pages ih => exact ⟨h.1, ih h.2⟩

/-- The next states of all lanes belong to the first character. -/
theorem next_lanes {identity : Identity} {roster : List Identity} {pages : List Page}
    (hfull : ∀ page ∈ pages, page.Full (roster.length + 1)) :
    (pages.map (Page.lane (identity :: roster))).mapM Lane.next =
      .ok ((pages.map Page.head).map (Part.laneState identity)) := by
  rw [mapM_ok, List.map_map, List.forall₂_map_left_iff, List.forall₂_map_right_iff,
    List.forall₂_same]
  intro page hpage
  have hlength := (hfull page hpage).1
  cases hrows : page.rows with
  | nil =>
      rw [hrows] at hlength
      cases hlength
  | cons row rows =>
      simp [Lane.next, Page.lane, Page.head, Part.laneState, hrows, pure, Except.pure]

theorem rest_lanes {identity : Identity} {roster : List Identity} {pages : List Page}
    (hfull : ∀ page ∈ pages, page.Full (roster.length + 1)) :
    (pages.map (Page.lane (identity :: roster))).map Lane.rest =
      (pages.map Page.tail).map (Page.lane roster) := by
  rw [List.map_map, List.map_map]
  refine List.map_congr_left fun page hpage => ?_
  have hlength := (hfull page hpage).1
  cases hrows : page.rows with
  | nil =>
      rw [hrows] at hlength
      cases hlength
  | cons row rows => simp [Lane.rest, Page.lane, Page.tail, hrows]

/-- The ordinals of a roster count up. -/
def Ordered (ordinal : Nat) (roster : List Identity) : Prop :=
  ∀ i : Nat, ∀ identity ∈ roster[i]?, identity.primitiveOrdinal = ((ordinal + i : Nat) : Int)

theorem Ordered.tail {ordinal : Nat} {identity : Identity} {roster : List Identity}
    (h : Ordered ordinal (identity :: roster)) : Ordered (ordinal + 1) roster := by
  intro i next hnext
  have := h (i + 1) next hnext
  rw [this]
  push_cast
  ring

/-- **The merged states are the scans of the flat rows.** -/
theorem mergedStates_scan {roster : List Identity} {ordinal : Nat} {pages : List Page}
    {start stop : Int} (hne : pages ≠ []) (hordered : Ordered ordinal roster)
    (hfull : ∀ page ∈ pages, page.Full roster.length)
    (hthread : Threaded Page.first Page.stop start pages stop) :
    mergedStates false ordinal roster.length (pages.map (Page.lane roster)) =
      .ok (List.zipWith (scanState · start) roster (flatRows roster.length pages)) := by
  induction roster generalizing ordinal pages with
  | nil =>
      simp only [mergedStates, List.length_nil, bind_ok, failIf_ok, pure_ok]
      refine ⟨(), ?_, rfl⟩
      intro h
      obtain ⟨lane, hlane, hstates⟩ := h
      obtain ⟨page, _, rfl⟩ := List.mem_map.mp hlane
      exact hstates rfl
  | cons identity roster ih =>
      have htail : ∀ page ∈ pages.map Page.tail, page.Full roster.length := by
        intro shorter hshorter
        obtain ⟨page, hpage, rfl⟩ := List.mem_map.mp hshorter
        have hp := hfull page hpage
        refine ⟨?_, fun row hrow => hp.2 row (List.mem_of_mem_tail hrow)⟩
        rw [Page.tail, List.length_tail, hp.1, List.length_cons]
        rfl
      have hheads : ∀ part ∈ pages.map Page.head, part.Full := by
        intro part hpart
        obtain ⟨page, hpage, rfl⟩ := List.mem_map.mp hpart
        have hp := hfull page hpage
        cases hrows : page.rows with
        | nil =>
            rw [Page.Full, hrows] at hp
            cases hp.1
        | cons row rows =>
            have := hp.2 row (by rw [hrows]; exact List.mem_cons_self)
            rwa [Part.Full, Page.head, hrows]
      have hmerge : mergeCharacter false ((pages.map Page.head).map (Part.laneState identity)) =
          .ok (scanState identity start (partCodes (pages.map Page.head))) := by
        obtain ⟨page, pages, rfl⟩ := List.exists_cons_of_ne_nil hne
        obtain rfl : page.first = start := hthread.1
        obtain ⟨brackets, hok, hempty⟩ :=
          mergeCharacter_scan identity false hheads (threaded_head hthread)
        rw [hempty rfl, withBrackets_scanState] at hok
        exact hok
      have hrest := ih (by simpa using hne) hordered.tail htail
        (threaded_map Page.tail (fun _ => rfl) (fun _ => rfl) hthread)
      have hordinal := hordered 0 identity rfl
      have hcodes : partCodes (pages.map Page.head) =
          pages.flatMap fun page => page.rows.headD [] := by
        rw [partCodes, List.flatMap_map]
        rfl
      rw [List.length_cons, mergedStates, next_lanes hfull, rest_lanes hfull]
      simp only [bind_ok, failIf_ok, pure_ok, not_not]
      refine ⟨_, rfl, _, hmerge, (), hordinal, _, hrest, ?_⟩
      rw [flatRows, List.zipWith_cons_cons, hcodes]

/-! ## The flat run -/

/-- The roster that `primitive_frequency_records_bulk` returns for a modulus. -/
structure Roster where
  identities : List Identity
  ordered : Ordered 0 identities

/-- What a lane's producer is given: a span and the codes of the whole roster, in any chunks. -/
structure LaneInput where
  first : Int
  stop : Int
  codeChunks : List (List Int)

def LaneInput.samples (input : LaneInput) : Nat :=
  ((input.stop - input.first) / SOURCE_SAMPLE_NUMERATOR).toNat

/-- The codes of the character with the given ordinal. -/
def LaneInput.characterCodes (input : LaneInput) (ordinal : Nat) : List Int :=
  (input.codeChunks.flatten.drop (ordinal * input.samples)).take input.samples

/-- The codes of the flat run: for each character those of all lanes in order. -/
def flatCodes (count : Nat) (inputs : List LaneInput) : List Int :=
  (List.range count).flatMap fun ordinal => inputs.flatMap (·.characterCodes ordinal)

/-- The states of one character in every lane, each lane with its own codes. -/
def laneStates (identity : Identity) (spanFirst : Int) : List (List Int) → Checked (List LaneState)
  | [] => pure []
  | codes :: lanes => do
      let (state, _) ← stateFromCodes identity codes spanFirst codes.length
      let stop := spanFirst + codes.length * SOURCE_SAMPLE_NUMERATOR
      let states ← laneStates identity stop lanes
      pure (⟨spanFirst, stop, state⟩ :: states)

/-- The parts of a cut. -/
def cutParts (spanFirst : Int) : List (List Int) → List Part
  | [] => []
  | codes :: lanes =>
      let stop := spanFirst + codes.length * SOURCE_SAMPLE_NUMERATOR
      ⟨spanFirst, stop, codes⟩ :: cutParts stop lanes

theorem cutParts_spec (spanFirst : Int) (lanes : List (List Int)) :
    (∀ part ∈ cutParts spanFirst lanes, part.Full) ∧
      partCodes (cutParts spanFirst lanes) = lanes.flatten ∧
      ∃ stop, Threaded Part.first Part.stop spanFirst (cutParts spanFirst lanes) stop := by
  induction lanes generalizing spanFirst with
  | nil => exact ⟨fun part hpart => (by cases hpart), rfl, spanFirst, rfl⟩
  | cons codes lanes ih =>
      obtain ⟨hfull, hcodes, stop, hthread⟩ :=
        ih (spanFirst + codes.length * SOURCE_SAMPLE_NUMERATOR)
      refine ⟨fun part hpart => ?_, ?_, stop, rfl, hthread⟩
      · rcases List.mem_cons.mp hpart with rfl | hpart
        · rfl
        · exact hfull part hpart
      · rw [cutParts, partCodes, List.flatMap_cons, List.flatten_cons, ← hcodes]
        rfl

theorem laneStates_scan (identity : Identity) (spanFirst : Int) {lanes : List (List Int)}
    (hvalid : ∀ lane ∈ lanes, ∀ code ∈ lane, IsCode code) :
    laneStates identity spanFirst lanes =
      .ok ((cutParts spanFirst lanes).map (Part.laneState identity)) := by
  induction lanes generalizing spanFirst with
  | nil => rfl
  | cons codes lanes ih =>
      have hrest := ih (spanFirst + codes.length * SOURCE_SAMPLE_NUMERATOR)
        fun lane hlane => hvalid lane (List.mem_cons_of_mem codes hlane)
      have hstate : stateFromCodes identity codes spanFirst codes.length =
          .ok (scanState identity spanFirst codes, []) :=
        stateFromCodes_ok.mpr
          ⟨codes, (List.append_nil codes).symm, rfl, hvalid codes List.mem_cons_self, rfl⟩
      simp only [laneStates, bind_ok, pure_ok]
      exact ⟨_, hstate, _, hrest, rfl⟩

/-! ## Rows and codes -/

/-- A row of fixed width is read at its offset. -/
theorem row_eq {width : Nat} {rows : List (List Int)} (hwidth : ∀ row ∈ rows, row.length = width)
    {j : Nat} (hj : j < rows.length) :
    (rows.flatten.drop (j * width)).take width = rows.getD j [] := by
  induction rows generalizing j with
  | nil => cases hj
  | cons row rows ih =>
      have hrow := hwidth row List.mem_cons_self
      cases j with
      | zero =>
          rw [Nat.zero_mul, List.drop_zero, List.flatten_cons, ← hrow, List.take_left]
          rfl
      | succ j =>
          have hdrop : (row ++ rows.flatten).drop ((j + 1) * width) = rows.flatten.drop (j * width) := by
            rw [Nat.succ_mul, Nat.add_comm, ← List.drop_drop, ← hrow, List.drop_left]
          rw [List.flatten_cons, hdrop]
          exact ih (fun r hr => hwidth r (List.mem_cons_of_mem row hr)) (Nat.lt_of_succ_lt_succ hj)

theorem flatRows_eq (count : Nat) (pages : List Page) :
    flatRows count pages =
      (List.range count).map fun j => pages.flatMap fun page => page.rows.getD j [] := by
  induction count generalizing pages with
  | zero => rfl
  | succ count ih =>
      rw [flatRows, ih, List.range_succ_eq_map, List.map_cons, List.map_map]
      congr 1
      · congr 1
        funext page
        cases page.rows <;> rfl
      · refine List.map_congr_left fun j _ => ?_
        rw [List.flatMap_map]
        congr 1
        funext page
        cases hrows : page.rows <;> simp [Page.tail, hrows]

/-- What a lane's producer made of its input. -/
structure Produced (roster : List Identity) (input : LaneInput) (page : Page) : Prop where
  first : page.first = input.first
  stop : page.stop = input.stop
  full : page.Full roster.length
  valid : ∀ row ∈ page.rows, ∀ code ∈ row, IsCode code
  codes : ∀ ordinal < roster.length, page.rows.getD ordinal [] = input.characterCodes ordinal
  /-- The span is a nonempty stretch of the grid. -/
  span : 0 ≤ input.first ∧ input.first < input.stop ∧ input.stop ≤ MAX_EVENT_COUNT ∧
    (input.stop - input.first) % SOURCE_SAMPLE_NUMERATOR = 0

theorem produced_of_ok {roster : List Identity} {input : LaneInput} {states : List CharacterState}
    (h : characterStatesFromFlatSignCodes roster input.first input.stop input.codeChunks =
      .ok states) :
    ∃ page : Page, Produced roster input page ∧
      page.lane roster = ⟨input.first, input.stop, states⟩ := by
  simp only [characterStatesFromFlatSignCodes, bind_ok, Prod.exists, characterStates_ok, failIf_ok,
    pure_ok, not_not] at h
  obtain ⟨samples, hspan, states', rest, ⟨rows, hrows, hlength, hall, rfl⟩, _, rfl, rfl⟩ := h
  obtain ⟨hgrid, hsamples⟩ := stateSpan_ok.mp hspan
  have hdiv : input.stop = input.first + samples * SOURCE_SAMPLE_NUMERATOR := by
    unfold SOURCE_SAMPLE_NUMERATOR at hgrid hsamples ⊢
    omega
  rw [List.append_nil] at hrows
  refine ⟨⟨input.first, input.stop, rows⟩, ⟨rfl, rfl, ⟨hlength, ?_⟩, ?_, ?_, hgrid⟩, rfl⟩
  · intro row hrow
    rw [(hall row hrow).1]
    exact hdiv
  · exact fun row hrow => (hall row hrow).2
  · intro ordinal hordinal
    have hwidth : input.samples = samples := hsamples.symm
    rw [LaneInput.characterCodes, hrows, hwidth]
    exact (row_eq (fun row hrow => (hall row hrow).1) (by omega)).symm

theorem pages_of_ok {roster : List Identity} {inputs : List LaneInput}
    {states : List (List CharacterState)}
    (h : List.Forall₂ (fun input s =>
      characterStatesFromFlatSignCodes roster input.first input.stop input.codeChunks = .ok s)
      inputs states) :
    ∃ pages : List Page, List.Forall₂ (Produced roster) inputs pages ∧
      pages.map (Page.lane roster) =
        List.zipWith (fun input s => ⟨input.first, input.stop, s⟩) inputs states := by
  induction h with
  | nil => exact ⟨[], List.Forall₂.nil, rfl⟩
  | cons hhead _ ih =>
      obtain ⟨page, hpage, hlane⟩ := produced_of_ok hhead
      obtain ⟨pages, hpages, hlanes⟩ := ih
      exact ⟨page :: pages, List.Forall₂.cons hpage hpages, by
        rw [List.map_cons, List.zipWith_cons_cons, hlane, hlanes]⟩

/-- The lanes' spans make up the span of the whole. -/
theorem span_of_produced {roster : List Identity} {inputs : List LaneInput} {pages : List Page}
    {start stop : Int} (h : List.Forall₂ (Produced roster) inputs pages) (hne : inputs ≠ [])
    (hthread : Threaded LaneInput.first LaneInput.stop start inputs stop) :
    Threaded Page.first Page.stop start pages stop ∧
      0 ≤ start ∧ start < stop ∧ stop ≤ MAX_EVENT_COUNT ∧
        (stop - start) % SOURCE_SAMPLE_NUMERATOR = 0 := by
  induction h generalizing start with
  | nil => exact absurd rfl hne
  | @cons input page inputs pages hhead hrest ih =>
      obtain ⟨rfl, htail⟩ := hthread
      obtain ⟨hfirst, hlt, hstop, hgrid⟩ := hhead.span
      cases inputs with
      | nil =>
          cases hrest
          obtain rfl : input.stop = stop := htail
          exact ⟨⟨hhead.first, hhead.stop⟩, hfirst, hlt, hstop, hgrid⟩
      | cons next inputs =>
          obtain ⟨hthread, hnext, hlt', hstop', hgrid'⟩ := ih (List.cons_ne_nil _ _) htail
          refine ⟨⟨hhead.first, by rw [hhead.stop]; exact hthread⟩, hfirst, by omega, hstop', ?_⟩
          unfold SOURCE_SAMPLE_NUMERATOR at hgrid hgrid' ⊢
          omega

theorem flatRows_flatten {roster : List Identity} {inputs : List LaneInput} {pages : List Page}
    (h : List.Forall₂ (Produced roster) inputs pages) :
    (flatRows roster.length pages).flatten = flatCodes roster.length inputs := by
  rw [flatRows_eq, flatCodes, ← List.flatMap_def]
  have hrow : ∀ ordinal < roster.length, (pages.flatMap fun page => page.rows.getD ordinal []) =
      inputs.flatMap (·.characterCodes ordinal) := by
    intro ordinal hordinal
    induction h with
    | nil => rfl
    | cons hhead _ ih =>
        rw [List.flatMap_cons, List.flatMap_cons, ih, hhead.codes ordinal hordinal]
  rw [List.flatMap_def, List.flatMap_def]
  refine congrArg List.flatten (List.map_congr_left fun ordinal hordinal => ?_)
  exact hrow ordinal (List.mem_range.mp hordinal)

/-- The rows of the flat run have one code for each sample of the whole span. -/
theorem flatRows_full {roster : List Identity} {inputs : List LaneInput} {pages : List Page}
    {start stop : Int} (h : List.Forall₂ (Produced roster) inputs pages)
    (hthread : Threaded Page.first Page.stop start pages stop) :
    ∀ row ∈ flatRows roster.length pages,
      stop = start + row.length * SOURCE_SAMPLE_NUMERATOR ∧ ∀ code ∈ row, IsCode code := by
  intro row hrow
  rw [flatRows_eq, List.mem_map] at hrow
  obtain ⟨ordinal, hordinal, rfl⟩ := hrow
  have hordinal := List.mem_range.mp hordinal
  induction h generalizing start with
  | nil =>
      obtain rfl : start = stop := hthread
      simp
  | @cons input page inputs pages hhead _ ih =>
      obtain ⟨rfl, htail⟩ := hthread
      obtain ⟨hlength, hvalid⟩ := ih htail
      have hmem : page.rows.getD ordinal [] ∈ page.rows := by
        have hlt : ordinal < page.rows.length := by rw [hhead.full.1]; exact hordinal
        rw [List.getD_eq_getElem?_getD, List.getElem?_eq_getElem hlt]
        exact List.getElem_mem hlt
      have hpage := hhead.full.2 _ hmem
      rw [List.flatMap_cons]
      refine ⟨?_, fun code hcode => ?_⟩
      · rw [List.length_append]
        push_cast
        linarith
      · rcases List.mem_append.mp hcode with hcode | hcode
        · exact hhead.valid _ hmem code hcode
        · exact hvalid code hcode

theorem full_of_produced {roster : List Identity} {inputs : List LaneInput} {pages : List Page}
    (h : List.Forall₂ (Produced roster) inputs pages) :
    ∀ page ∈ pages, page.Full roster.length := by
  induction h with
  | nil => exact fun page hpage => (by cases hpage)
  | cons hhead _ ih =>
      intro page hpage
      rcases List.mem_cons.mp hpage with rfl | hpage
      · exact hhead.full
      · exact ih page hpage

/-- The headers of threaded lanes are adjacent. -/
theorem adjacent_of_threaded {roster : List Identity} {pages : List Page} {start stop : Int}
    (h : Threaded Page.first Page.stop start pages stop) :
    (pages.map (Page.lane roster)).IsChain fun left right => left.stop = right.first := by
  induction pages generalizing start with
  | nil => exact List.isChain_nil
  | cons page pages ih =>
      have htail := ih h.2
      cases pages with
      | nil => exact List.isChain_singleton _
      | cons next pages => exact List.isChain_cons_cons.mpr ⟨h.2.1.symm, htail⟩

/-- **Lanes merge to the flat scan.** For one character, the states of any cut into lanes merge to
the state of all codes; a debug run adds bracket rows and nothing else. For a whole roster, the
finalizer makes of the lanes' states what one producer makes of all codes, however the codes of
the lanes and of the flat run are chunked. -/
theorem lanes_merge_to_flat :
    (∀ identity spanFirst (lanes : List (List Int)), 1 ≤ lanes.length →
      lanes.length ≤ MAXIMUM_LANES → (∀ lane ∈ lanes, ∀ code ∈ lane, IsCode code) →
        ∃ states flat, laneStates identity spanFirst lanes = .ok states ∧
          stateFromCodes identity lanes.flatten spanFirst lanes.flatten.length = .ok (flat, []) ∧
          mergeCharacter false states = .ok flat ∧
          ∃ brackets, mergeCharacter true states = .ok (withBrackets flat brackets)) ∧
    ∀ (roster : Roster) (inputs : List LaneInput) (states : List (List CharacterState))
      (flatChunks : List (List Int)) (start stop : Int), 1 ≤ inputs.length →
      inputs.length ≤ MAXIMUM_LANES →
      Threaded LaneInput.first LaneInput.stop start inputs stop →
      List.Forall₂ (fun input s => characterStatesFromFlatSignCodes roster.identities input.first
        input.stop input.codeChunks = .ok s) inputs states →
      flatChunks.flatten = flatCodes roster.identities.length inputs →
        ∃ merged, finalizeLanes false roster.identities.length
            (List.zipWith (fun input s => ⟨input.first, input.stop, s⟩) inputs states) =
              .ok merged ∧
          characterStatesFromFlatSignCodes roster.identities start stop flatChunks = .ok merged := by
  constructor
  · intro identity spanFirst lanes hone _ hvalid
    obtain ⟨hfull, hcodes, stop, hthread⟩ := cutParts_spec spanFirst lanes
    have hstates := laneStates_scan identity spanFirst hvalid
    have hflat : stateFromCodes identity lanes.flatten spanFirst lanes.flatten.length =
        .ok (scanState identity spanFirst lanes.flatten, []) := by
      refine stateFromCodes_ok.mpr ⟨_, (List.append_nil _).symm, rfl, ?_, rfl⟩
      intro code hcode
      obtain ⟨lane, hlane, hcode⟩ := List.mem_flatten.mp hcode
      exact hvalid lane hlane code hcode
    refine ⟨_, _, hstates, hflat, ?_⟩
    obtain ⟨lane, lanes, rfl⟩ := List.exists_cons_of_length_pos hone
    have hmerge := fun debug => @mergeCharacter_scan identity debug _ _ stop hfull hthread
    obtain ⟨brackets, hproduction, hempty⟩ := hmerge false
    obtain ⟨brackets', hdebug, _⟩ := hmerge true
    have hcodes' : partCodes (⟨spanFirst, spanFirst + lane.length * SOURCE_SAMPLE_NUMERATOR, lane⟩ ::
        cutParts (spanFirst + lane.length * SOURCE_SAMPLE_NUMERATOR) lanes) =
          (lane :: lanes).flatten := hcodes
    rw [hcodes'] at hproduction hdebug
    rw [hempty rfl, withBrackets_scanState] at hproduction
    exact ⟨hproduction, brackets', hdebug⟩
  · intro roster inputs states flatChunks start stop hone hmax hthread hall hflat
    have hne : inputs ≠ [] := List.ne_nil_of_length_pos hone
    obtain ⟨pages, hpages, hlanes⟩ := pages_of_ok hall
    obtain ⟨hpageThread, hspan⟩ := span_of_produced hpages hne hthread
    have hpagesNe : pages ≠ [] := by
      intro h
      rw [h] at hpages
      cases hpages
      exact hne rfl
    have hmerged := mergedStates_scan hpagesNe roster.ordered (full_of_produced hpages) hpageThread
    refine ⟨List.zipWith (scanState · start) roster.identities
      (flatRows roster.identities.length pages), ?_, ?_⟩
    · have hcount : (pages.map (Page.lane roster.identities)).length = inputs.length := by
        rw [List.length_map, hpages.length_eq]
      rw [← hlanes]
      simp only [finalizeLanes, bind_ok, failIf_ok, not_not]
      exact ⟨(), by rw [hcount]; exact ⟨hone, hmax⟩, (), adjacent_of_threaded hpageThread, hmerged⟩
    · have hrows := flatRows_full hpages hpageThread
      simp only [characterStatesFromFlatSignCodes, bind_ok, Prod.exists, characterStates_ok,
        failIf_ok, pure_ok, not_not]
      refine ⟨_, stateSpan_ok.mpr ⟨hspan, rfl⟩, _, [], ⟨flatRows roster.identities.length pages,
        ?_, length_flatRows _ _, fun row hrow => ⟨?_, (hrows row hrow).2⟩, rfl⟩, (), rfl, rfl⟩
      · rw [List.append_nil, hflat, flatRows_flatten hpages]
      · have hstop := (hrows row hrow).1
        unfold SOURCE_SAMPLE_NUMERATOR at hstop ⊢
        omega

theorem lanes_merge_to_flat_border :
    (∃ states flat, laneStates ⟨2, 0, 1⟩ 0 [[1, 0], [], [0, 2]] = .ok states ∧
      stateFromCodes ⟨2, 0, 1⟩ [1, 0, 0, 2] 0 4 = .ok (flat, []) ∧
      mergeCharacter false states = .ok flat ∧
      ∃ brackets, mergeCharacter true states = .ok (withBrackets flat brackets)) ∧
    ∃ merged, finalizeLanes false 1
        [⟨0, 10, [scanState ⟨2, 0, 1⟩ 0 [1, 0]]⟩, ⟨10, 20, [scanState ⟨2, 0, 1⟩ 10 [0, 2]]⟩] =
          .ok merged ∧
      characterStatesFromFlatSignCodes [⟨2, 0, 1⟩] 0 20 [[1, 0, 0], [2]] = .ok merged :=
  ⟨lanes_merge_to_flat.1 ⟨2, 0, 1⟩ 0 [[1, 0], [], [0, 2]] (by decide) (by decide)
      (by unfold IsCode; decide),
    lanes_merge_to_flat.2 ⟨[⟨2, 0, 1⟩], by rintro (_ | i) identity ⟨⟩; rfl⟩
      [⟨0, 10, [[1], [0]]⟩, ⟨10, 20, [[0, 2]]⟩]
      [[scanState ⟨2, 0, 1⟩ 0 [1, 0]], [scanState ⟨2, 0, 1⟩ 10 [0, 2]]] [[1, 0, 0], [2]] 0 20
      (by decide) (by decide) ⟨rfl, rfl, rfl⟩
      (List.Forall₂.cons rfl (List.Forall₂.cons rfl List.Forall₂.nil)) (by decide)⟩

end AttestedCompute.CompactV3
