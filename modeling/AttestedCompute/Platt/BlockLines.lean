import AttestedCompute.Platt.RunUnit

/-!
# The lines of a block

A runner that treats every block on its own prints, for a run of blocks, the lines of the first
block, then those of the second, and so on. Whatever such a text is cut into, at block boundaries
or in the middle of a block, what can be parsed of it are the records of its first blocks: each
block has at least one line of either kind, and the parser counts the lines.
-/

namespace AttestedCompute.Platt

open Fallible
open Py (Str)

/-! ## Runs of blocks -/

/-- Consecutive blocks. -/
def gridBlocks : Int → Nat → List Int
  | _, 0 => []
  | block, n + 1 => block :: gridBlocks (block + 1) n

@[simp] theorem length_gridBlocks (block : Int) (n : Nat) : (gridBlocks block n).length = n := by
  induction n generalizing block with
  | zero => rfl
  | succ n ih => rw [gridBlocks, List.length_cons, ih]

theorem gridBlocks_add (block : Int) (m n : Nat) :
    gridBlocks block (m + n) = gridBlocks block m ++ gridBlocks (block + m) n := by
  induction m generalizing block with
  | zero => simp [gridBlocks]
  | succ m ih =>
      have hnext : block + 1 + (m : Int) = block + ((m + 1 : Nat) : Int) := by
        push_cast
        ring
      rw [Nat.succ_add, gridBlocks, ih, hnext, gridBlocks, List.cons_append]

theorem gridBlocks_eq_map (block : Int) (n : Nat) :
    gridBlocks block n = (List.range n).map fun i : Nat => block + (i : Int) := by
  induction n with
  | zero => rfl
  | succ n ih => rw [gridBlocks_add, ih, List.range_succ, List.map_append]; rfl

/-! ## The lines of one block -/

def isLooking (line : Str) : Bool := (matchLooking line).isSome

/-- One line of either kind, the line of success last, and no failure token. -/
structure BlockText (lines : List Str) : Prop where
  clean : ∀ line ∈ lines, failureToken line = none
  looking : lines.countP isLooking = 1
  success : lines.countP isSuccess = 1
  last : ∃ line ∈ lines.getLast?, isSuccess line = true

/-- The groups of the first line that matches. -/
def groupsOf (matcher : Str → Option (Str × Str × Str)) (lines : List Str) : Str × Str × Str :=
  (lines.findSome? matcher).getD ([], [], [])

/-- The numbers in the first line that matches. -/
def numbersOf (matcher : Str → Option (Str × Str × Str)) (lines : List Str) : Nat × Nat × Nat :=
  (toInts (groupsOf matcher lines)).toOption.getD (0, 0, 0)

/-- The record that the lines of a block state. -/
def blockRecord (lines : List Str) (block : Int) : Record :=
  let (maximum, minimum, _) := numbersOf matchLooking lines
  let (found, lower, upper) := numbersOf matchSuccess lines
  ⟨block, lower, upper, minimum, maximum, found⟩

/-- The matches in a joined text. -/
def hits (matcher : Str → Option (Str × Str × Str)) (lines : List Str) : List (Str × Str × Str) :=
  (Py.splitlines (joinLines lines)).filterMap matcher

theorem hits_append (matcher : Str → Option (Str × Str × Str)) (xs ys : List Str) :
    hits matcher (xs ++ ys) = hits matcher xs ++ hits matcher ys := by
  rw [hits, splitlines_joinLines, List.flatMap_append, ← splitlines_joinLines,
    ← splitlines_joinLines, List.filterMap_append]
  rfl

section

variable {matcher : Str → Option (Str × Str × Str)}
  (hunbroken : ∀ line groups, matcher line = some groups → Unbroken line)
include hunbroken

/-- A line that matches is among the matches of the text. -/
theorem groupsOf_mem_hits {lines : List Str} (h : ∃ line ∈ lines, (matcher line).isSome) :
    groupsOf matcher lines ∈ hits matcher lines := by
  cases hfind : lines.findSome? matcher with
  | none =>
      obtain ⟨line, hline, hsome⟩ := h
      rw [List.findSome?_eq_none_iff.mp hfind line hline] at hsome
      cases hsome
  | some groups =>
      obtain ⟨line, hline, hmatch⟩ := List.exists_of_findSome?_eq_some hfind
      rw [groupsOf, hfind, hits, splitlines_joinLines]
      refine List.mem_filterMap.mpr ⟨line, List.mem_flatMap.mpr ⟨line, hline, ?_⟩, hmatch⟩
      rw [splitlines_line (hunbroken line groups hmatch)]
      exact List.mem_singleton_self line

/-- **As many matches as blocks are one match for each block.** -/
theorem hits_blocks {T : Int → List Str} {blocks : List Int}
    (h : ∀ block ∈ blocks, ∃ line ∈ T block, (matcher line).isSome) :
    blocks.length ≤ (hits matcher (blocks.flatMap T)).length ∧
      ((hits matcher (blocks.flatMap T)).length = blocks.length →
        hits matcher (blocks.flatMap T) = blocks.map fun block => groupsOf matcher (T block)) := by
  induction blocks with
  | nil => exact ⟨Nat.zero_le _, fun _ => rfl⟩
  | cons block rest ih =>
      obtain ⟨hle, heq⟩ := ih fun b hb => h b (List.mem_cons_of_mem block hb)
      have hmem := groupsOf_mem_hits hunbroken (h block List.mem_cons_self)
      have hpos := List.length_pos_of_mem hmem
      rw [List.flatMap_cons, hits_append, List.length_append, List.length_cons, List.map_cons]
      refine ⟨by omega, fun hlength => ?_⟩
      obtain ⟨groups, hgroups⟩ := List.length_eq_one_iff.mp
        (by omega : (hits matcher (T block)).length = 1)
      rw [hgroups, List.mem_singleton] at hmem
      rw [heq (by omega), hgroups, hmem]
      rfl

end

/-- The numbers of matches that are all numerals. -/
theorem toInts_groups {matcher : Str → Option (Str × Str × Str)} {T : Int → List Str}
    {blocks : List Int} {numbers : List (Nat × Nat × Nat)}
    (h : (blocks.map fun block => groupsOf matcher (T block)).mapM toInts = .ok numbers) :
    numbers = blocks.map fun block => numbersOf matcher (T block) := by
  rw [mapM_ok, List.forall₂_map_left_iff] at h
  induction h with
  | nil => rfl
  | cons hhead _ ih =>
      rw [List.map_cons, ← ih, numbersOf, hhead]
      rfl

/-- The records the loop over the pairs makes. -/
theorem readRecords_grid {T : Int → List Str} {block : Int} {n : Nat} {previous : Option Nat}
    {records : List Record}
    (h : readRecords block previous
      (((gridBlocks block n).map fun b => numbersOf matchLooking (T b)).zip
        ((gridBlocks block n).map fun b => numbersOf matchSuccess (T b))) = .ok records) :
    records = (gridBlocks block n).map fun b => blockRecord (T b) b := by
  induction n generalizing block previous records with
  | zero =>
      rw [gridBlocks, List.map_nil, List.map_nil, List.zip_nil_left, readRecords, pure_ok] at h
      exact h.symm
  | succ n ih =>
      rw [gridBlocks, List.map_cons, List.map_cons, List.zip_cons_cons] at h
      simp only [readRecords, bind_ok, campaignIf_ok, pure_ok] at h
      obtain ⟨_, _, _, _, _, _, rest, hrest, rfl⟩ := h
      rw [gridBlocks, List.map_cons, ← ih hrest]
      rfl

variable {T : Int → List Str}

theorem BlockText.exists_looking {lines : List Str} (h : BlockText lines) :
    ∃ line ∈ lines, (matchLooking line).isSome := by
  have hpos : 0 < lines.countP isLooking := by
    rw [h.looking]
    exact Nat.one_pos
  exact List.countP_pos_iff.mp hpos

theorem BlockText.exists_success {lines : List Str} (h : BlockText lines) :
    ∃ line ∈ lines, (matchSuccess line).isSome := by
  have hpos : 0 < lines.countP isSuccess := by
    rw [h.success]
    exact Nat.one_pos
  exact List.countP_pos_iff.mp hpos

/-- **What a text of whole blocks is parsed to.** -/
theorem parseTranscript_blocks (hT : ∀ block, BlockText (T block)) {block : Int} {n : Nat}
    {parsed : Parsed}
    (h : parseTranscript (joinLines ((gridBlocks block n).flatMap T)) block n = .ok parsed) :
    parsed.records = (gridBlocks block n).map fun b => blockRecord (T b) b := by
  simp only [parseTranscript, bind_ok, campaignIf_ok] at h
  obtain ⟨_, _, _, _, looking, hlooking, success, hsuccess, _, hcount, records, hrecords, hend⟩ := h
  have hlengths : looking.length = n ∧ success.length = n := by
    push Not at hcount
    omega
  have hgroups : ∀ {matcher : Str → Option (Str × Str × Str)} {numbers : List (Nat × Nat × Nat)},
      (∀ line groups, matcher line = some groups → Unbroken line) →
      (∀ b, ∃ line ∈ T b, (matcher line).isSome) →
      (hits matcher ((gridBlocks block n).flatMap T)).mapM toInts = .ok numbers →
      numbers.length = n →
      numbers = (gridBlocks block n).map fun b => numbersOf matcher (T b) := by
    intro matcher numbers hunbroken hsome hnumbers hlength
    obtain ⟨_, heq⟩ := hits_blocks hunbroken fun b (_ : b ∈ gridBlocks block n) => hsome b
    have hhits : (hits matcher ((gridBlocks block n).flatMap T)).length = n := by
      exact (mapM_ok.mp hnumbers).length_eq.trans hlength
    rw [heq (by rw [hhits, length_gridBlocks])] at hnumbers
    exact toInts_groups hnumbers
  rw [hgroups (fun _ _ => matchLooking_unbroken) (fun b => (hT b).exists_looking) hlooking
      hlengths.1, hgroups (fun _ _ => matchSuccess_unbroken) (fun b => (hT b).exists_success)
      hsuccess hlengths.2] at hrecords
  have hresult : parsed.records = records := by
    split at hend
    · rw [pure_ok] at hend
      rw [← hend]
    · cases hend
  rw [hresult, readRecords_grid hrecords]

/-! ## The committed prefix -/

theorem scanBoundary_append (index : Nat) (acc : Nat × Nat) (xs ys : List Str) :
    scanBoundary index acc (xs ++ ys) =
      scanBoundary (index + xs.length) (scanBoundary index acc xs) ys := by
  induction xs generalizing index acc with
  | nil => rfl
  | cons line rest ih =>
      rw [List.cons_append, scanBoundary, scanBoundary, ih, List.length_cons,
        Nat.add_right_comm, Nat.add_assoc]

/-- Lines that are no success move no boundary. -/
theorem scanBoundary_unfinished {lines : List Str} (h : ∀ line ∈ lines, isSuccess line = false)
    (index : Nat) (acc : Nat × Nat) : scanBoundary index acc lines = acc := by
  induction lines generalizing index acc with
  | nil => rfl
  | cons line rest ih =>
      rw [scanBoundary, h line List.mem_cons_self, if_neg (by decide)]
      exact ih (fun l hl => h l (List.mem_cons_of_mem line hl)) _ _

/-- A block is lines that are no success and then a line of success. -/
theorem BlockText.split {lines : List Str} (h : BlockText lines) :
    ∃ init last, lines = init ++ [last] ∧ isSuccess last = true ∧
      ∀ line ∈ init, isSuccess line = false := by
  obtain ⟨last, hlast, hsuccess⟩ := h.last
  obtain ⟨init, rfl⟩ := List.getLast?_eq_some_iff.mp hlast
  refine ⟨init, last, rfl, hsuccess, fun line hline => ?_⟩
  have hcount := h.success
  rw [List.countP_append, List.countP_singleton, if_pos hsuccess] at hcount
  have hzero : init.countP isSuccess = 0 := by omega
  simpa using List.countP_eq_zero.mp hzero line hline

/-- Whole blocks move the boundary to their end. -/
theorem scanBoundary_blocks (hT : ∀ block, BlockText (T block)) (blocks : List Int)
    {unfinished : List Str} (h : ∀ line ∈ unfinished, isSuccess line = false)
    (index completed : Nat) :
    scanBoundary index (index, completed) (blocks.flatMap T ++ unfinished) =
      (index + (blocks.flatMap T).length, completed + blocks.length) := by
  induction blocks generalizing index completed with
  | nil => exact scanBoundary_unfinished h index _
  | cons block rest ih =>
      obtain ⟨init, last, hsplit, hlast, hinit⟩ := (hT block).split
      rw [List.flatMap_cons, hsplit, List.append_assoc, List.append_assoc, scanBoundary_append,
        scanBoundary_unfinished hinit, List.singleton_append, scanBoundary, if_pos hlast, ih]
      simp only [List.length_append, List.length_cons, List.length_nil, Prod.mk.injEq]
      omega

/-- **What has been read of a text ends within one of its blocks.** -/
theorem seen_blocks (hT : ∀ block, BlockText (T block)) {seen pending : List Str}
    {blocks : List Int} (h : seen ++ pending = blocks.flatMap T) :
    ∃ done rest unfinished, blocks = done ++ rest ∧ seen = done.flatMap T ++ unfinished ∧
      ∀ line ∈ unfinished, isSuccess line = false := by
  induction blocks generalizing seen with
  | nil =>
      obtain ⟨rfl, _⟩ := List.append_eq_nil_iff.mp h
      exact ⟨[], [], [], rfl, rfl, List.forall_mem_nil _⟩
  | cons block rest ih =>
      rw [List.flatMap_cons, List.append_eq_append_iff] at h
      rcases h with ⟨tail, hblock, hpending⟩ | ⟨seen', hseen, hrest⟩
      · -- the reading ends within the first block
        obtain ⟨init, last, hsplit, _, hinit⟩ := (hT block).split
        rcases List.eq_nil_or_concat tail with rfl | ⟨tail', x, rfl⟩
        · refine ⟨[block], rest, [], rfl, ?_, List.forall_mem_nil _⟩
          rw [List.append_nil] at hblock
          rw [List.flatMap_singleton, hblock, List.append_nil]
        · rw [hsplit, List.concat_eq_append, ← List.append_assoc] at hblock
          have hinit' := (List.append_inj' hblock rfl).1
          refine ⟨[], block :: rest, seen, rfl, rfl, fun line hline => hinit line ?_⟩
          rw [hinit']
          exact List.mem_append_left _ hline
      · obtain ⟨done, rest', unfinished, rfl, rfl, hunfinished⟩ := ih hrest.symm
        refine ⟨block :: done, rest', unfinished, rfl, ?_, hunfinished⟩
        rw [hseen, List.flatMap_cons, List.append_assoc]

/-- **What the committed prefix is parsed to.** -/
theorem parseCommittedPrefix_blocks (hT : ∀ block, BlockText (T block)) {seen pending : List Str}
    {block : Int} {n : Nat} {fresh : List Record} {text : Str} {boundary : Nat}
    (hseen : seen ++ pending = (gridBlocks block n).flatMap T)
    (h : parseCommittedPrefix seen block = .ok (fresh, text, boundary)) :
    ∃ k ≤ n, fresh = (gridBlocks block k).map fun b => blockRecord (T b) b := by
  obtain ⟨done, rest, unfinished, hblocks, rfl, hunfinished⟩ := seen_blocks hT hseen
  have hle : done.length ≤ n := by
    rw [← length_gridBlocks block n, hblocks, List.length_append]
    exact Nat.le_add_right _ _
  have hdone : done = gridBlocks block done.length := by
    have hadd := gridBlocks_add block done.length (n - done.length)
    rw [Nat.add_sub_cancel' hle, hblocks] at hadd
    exact (List.append_inj hadd (by rw [length_gridBlocks])).1
  refine ⟨done.length, hle, ?_⟩
  rw [parseCommittedPrefix, scanBoundary_blocks hT done hunfinished 0 0, Nat.zero_add,
    Nat.zero_add] at h
  dsimp only at h
  split at h
  · rename_i hzero
    rw [pure_ok, Prod.mk.injEq] at h
    rw [hzero, ← h.1]
    rfl
  · simp only [bind_ok, pure_ok, Prod.mk.injEq] at h
    obtain ⟨parsed, hparsed, hfresh, _⟩ := h
    rw [List.take_left, hdone, length_gridBlocks] at hparsed
    rw [← hfresh, parseTranscript_blocks hT hparsed]

end AttestedCompute.Platt
