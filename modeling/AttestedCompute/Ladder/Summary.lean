import Mathlib

/-!
# What the ladder's summaries mean

The specification side of the ladder (`SparkInterval/Zeta/PT21Ladder.lean`): window
summaries are four naturals, a window chain is a run of consecutive blocks whose
counts close and link, and `runGroupsTo` is the executable check that the kernel
makes of the much shorter list of group records.

`runGroupsTo_of_runs` is what a producer of group records has to establish: cut a
valid window chain into nonempty runs, describe each run exactly, and the check
accepts.
-/

namespace AttestedCompute.PT21Ladder

/-- `2 ^ 256`, written out. -/
def digestBound : Nat :=
  115792089237316195423570985008687907853269984665640564039457584007913129639936

/-- Everything the ladder retains about one block. -/
structure WindowSummary where
  block : Nat
  lowerCount : Nat
  slots : Nat
  upperCount : Nat
  deriving DecidableEq, Repr

/-- The local closure equation of one window. -/
def WindowSummary.Closed (window : WindowSummary) : Prop :=
  window.lowerCount + window.slots = window.upperCount

/-- Total slot count of a window list. -/
def slotSum : List WindowSummary → Nat
  | [] => 0
  | window :: rest => window.slots + slotSum rest

/-- Exact meaning of accepting a window run that starts at `block` with count `count`. -/
def WindowChainValid : Nat → Nat → List WindowSummary → Prop
  | _, _, [] => True
  | block, count, window :: rest =>
      window.block = block ∧ window.lowerCount = count ∧ window.Closed ∧
        WindowChainValid (block + 1) window.upperCount rest

/-- A level-2 record: `blockCount` windows in four naturals and a digest. -/
structure GroupSummary where
  firstBlock : Nat
  blockCount : Nat
  lowerCount : Nat
  slots : Nat
  upperCount : Nat
  digest : Nat
  deriving DecidableEq, Repr

/-- The closed-form group checker. -/
def runGroupsTo : Nat → Nat → Nat → Nat → List GroupSummary → Bool
  | block, count, targetBlock, targetCount, [] =>
      decide (block = targetBlock) && decide (count = targetCount)
  | block, count, targetBlock, targetCount, group :: rest =>
      if group.firstBlock = block ∧ group.lowerCount = count ∧
          0 < group.blockCount ∧ group.digest < digestBound ∧
          group.lowerCount + group.slots = group.upperCount then
        runGroupsTo (block + group.blockCount) group.upperCount targetBlock targetCount rest
      else
        false

/-- `group` describes exactly the run `windows`, whose records hash to `digest`. -/
structure Describes (windows : List WindowSummary) (digest : Nat) (group : GroupSummary) :
    Prop where
  firstBlock : windows.head?.map WindowSummary.block = some group.firstBlock
  blockCount : windows.length = group.blockCount
  lowerCount : windows.head?.map WindowSummary.lowerCount = some group.lowerCount
  slots : slotSum windows = group.slots
  upperCount : windows.getLast?.map WindowSummary.upperCount = some group.upperCount
  digest : digest = group.digest

@[simp] theorem slotSum_nil : slotSum [] = 0 := rfl

theorem slotSum_append (left right : List WindowSummary) :
    slotSum (left ++ right) = slotSum left + slotSum right := by
  induction left with
  | nil => simp
  | cons window rest ih =>
      show window.slots + slotSum (rest ++ right) = window.slots + slotSum rest + slotSum right
      rw [ih, Nat.add_assoc]

/-- Chains concatenate where the first one's cursor ends. -/
theorem windowChainValid_append {block count : Nat} {left right : List WindowSummary} :
    WindowChainValid block count (left ++ right)
      ↔ WindowChainValid block count left
        ∧ WindowChainValid (block + left.length) (count + slotSum left) right := by
  induction left generalizing block count with
  | nil => simp [WindowChainValid]
  | cons window rest ih =>
      have hcursor : ∀ h : window.lowerCount = count ∧ window.Closed,
          WindowChainValid (block + (window :: rest).length) (count + slotSum (window :: rest)) right
            ↔ WindowChainValid (block + 1 + rest.length) (window.upperCount + slotSum rest) right := by
        rintro ⟨hlow, hclosed⟩
        have hblock : block + (window :: rest).length = block + 1 + rest.length := by
          rw [List.length_cons]; omega
        have hcount : count + slotSum (window :: rest) = window.upperCount + slotSum rest := by
          have hc : window.lowerCount + window.slots = window.upperCount := hclosed
          show count + (window.slots + slotSum rest) = _
          omega
        rw [hblock, hcount]
      rw [List.cons_append]
      show _ ∧ _ ∧ _ ∧ WindowChainValid (block + 1) window.upperCount (rest ++ right) ↔ _
      rw [ih]
      constructor
      · rintro ⟨hblock, hlow, hclosed, hrest, hright⟩
        exact ⟨⟨hblock, hlow, hclosed, hrest⟩, (hcursor ⟨hlow, hclosed⟩).mpr hright⟩
      · rintro ⟨⟨hblock, hlow, hclosed, hrest⟩, hright⟩
        exact ⟨hblock, hlow, hclosed, hrest, (hcursor ⟨hlow, hclosed⟩).mp hright⟩

/-- Where a nonempty chain ends. -/
theorem windowChainValid_last {block count : Nat} {windows : List WindowSummary}
    (h : WindowChainValid block count windows) (hne : windows ≠ []) :
    windows.getLast?.map WindowSummary.upperCount = some (count + slotSum windows) := by
  obtain ⟨front, last, rfl⟩ := List.eq_nil_or_concat windows |>.resolve_left hne
  rw [List.concat_eq_append] at h ⊢
  obtain ⟨-, -, hlow, hclosed, -⟩ := windowChainValid_append.mp h
  have hc : last.lowerCount + last.slots = last.upperCount := hclosed
  rw [List.getLast?_concat, slotSum_append]
  show some last.upperCount = some (count + (slotSum front + (last.slots + 0)))
  rw [← hc, hlow]
  simp [Nat.add_assoc]

/-- The block of each window of a chain is its position. -/
theorem windowChainValid_block {block count : Nat} {windows : List WindowSummary}
    (h : WindowChainValid block count windows) {i : Nat} {window : WindowSummary}
    (hi : windows[i]? = some window) : window.block = block + i := by
  induction windows generalizing block count i with
  | nil => simp at hi
  | cons head rest ih =>
      cases i with
      | zero =>
          rw [List.getElem?_cons_zero] at hi
          injection hi with hi
          rw [← hi]
          exact h.1
      | succ i =>
          rw [List.getElem?_cons_succ] at hi
          have := ih h.2.2.2 hi
          omega

/-- **Describing the runs of a chain passes the group check.** -/
theorem runGroupsTo_of_runs {block count : Nat} {runs : List (List WindowSummary)}
    {groups : List GroupSummary} (hne : ∀ run ∈ runs, run ≠ [])
    (hchain : WindowChainValid block count runs.flatten)
    (hgroups : List.Forall₂ (fun run group => ∃ digest < digestBound, Describes run digest group)
      runs groups) :
    runGroupsTo block count (block + runs.flatten.length) (count + slotSum runs.flatten) groups
      = true := by
  induction hgroups generalizing block count with
  | nil => simp [runGroupsTo]
  | @cons run group runs groups hrun _ ih =>
      obtain ⟨digest, hdigest, hdesc⟩ := hrun
      have hrunne : run ≠ [] := hne run (by simp)
      rw [List.flatten_cons] at hchain ⊢
      obtain ⟨hhead, htail⟩ := windowChainValid_append.mp hchain
      have hupper := hdesc.upperCount
      rw [windowChainValid_last hhead hrunne] at hupper
      injection hupper with hupper
      have hfirst := hdesc.firstBlock
      have hlower := hdesc.lowerCount
      obtain ⟨first, rest, rfl⟩ := List.exists_cons_of_ne_nil hrunne
      injection hfirst with hfirst
      injection hlower with hlower
      have hguard : group.firstBlock = block ∧ group.lowerCount = count ∧ 0 < group.blockCount ∧
          group.digest < digestBound ∧ group.lowerCount + group.slots = group.upperCount := by
        refine ⟨hfirst ▸ hhead.1, hlower ▸ hhead.2.1, ?_, hdesc.digest ▸ hdigest, ?_⟩
        · rw [← hdesc.blockCount, List.length_cons]; omega
        · rw [← hlower, hhead.2.1, ← hdesc.slots, hupper]
      have hblock : block + ((first :: rest) ++ runs.flatten).length
          = block + group.blockCount + runs.flatten.length := by
        rw [List.length_append, hdesc.blockCount, Nat.add_assoc]
      have hcount : count + slotSum ((first :: rest) ++ runs.flatten)
          = group.upperCount + slotSum runs.flatten := by
        rw [slotSum_append, ← hupper, Nat.add_assoc]
      rw [runGroupsTo, if_pos hguard, hblock, hcount]
      rw [hdesc.blockCount, hupper] at htail
      exact ih (fun r hr => hne r (List.mem_cons_of_mem _ hr)) htail

end AttestedCompute.PT21Ladder
