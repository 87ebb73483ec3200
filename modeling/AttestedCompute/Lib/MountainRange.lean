import Mathlib

/-!
# Merkle mountain ranges

A range of leaves is kept as the roots of perfect trees, one for every binary digit of
the number of leaves, the lowest digit first. Appending a leaf is adding one to the
number: a carry joins two trees of one height. Nothing is ever taken out of a tree, so
the roots at any time commit to all leaves before it, provided the hash has no
collision among the messages of the trees.
-/

namespace MountainRange

section

variable {δ : Type*} (node : Nat → δ → δ → δ) (leaf : Nat → δ)

/-- The root of the tree over the `2 ^ h` leaves from `start` on. -/
def blockRoot : Nat → Nat → δ
  | 0, start => leaf start
  | h + 1, start => node h (blockRoot h start) (blockRoot h (start + 2 ^ h))

/-- Put a tree of height `h` in front of the peaks from height `h` on. -/
def carry : Nat → δ → List (Option δ) → List (Option δ)
  | _, x, [] => [some x]
  | _, x, none :: rest => some x :: rest
  | h, x, some left :: rest => none :: carry (h + 1) (node h left x) rest

/-- The peaks from height `h` on cover the first `count` blocks of `2 ^ h` leaves. -/
def Covers : Nat → Nat → List (Option δ) → Prop
  | _, count, [] => count = 0
  | h, count, peak :: rest =>
      count ≠ 0
        ∧ peak = (if count % 2 = 1 then some (blockRoot node leaf h (count / 2 * 2 ^ (h + 1)))
          else none)
        ∧ Covers (h + 1) (count / 2) rest

variable {node leaf}

/-- **Appending a block is adding one.** -/
theorem covers_carry {h count : Nat} {peaks : List (Option δ)} (hc : Covers node leaf h count peaks) :
    Covers node leaf h (count + 1) (carry node h (blockRoot node leaf h (count * 2 ^ h)) peaks) := by
  induction peaks generalizing h count with
  | nil =>
      obtain rfl : count = 0 := hc
      refine ⟨by omega, ?_, rfl⟩
      simp
  | cons peak rest ih =>
      obtain ⟨hne, hpeak, hrest⟩ := hc
      by_cases hodd : count % 2 = 1
      · -- the two trees of this height are joined and carried on
        rw [if_pos hodd] at hpeak
        subst hpeak
        have hhalf : (count + 1) / 2 = count / 2 + 1 := by omega
        have hstart : count * 2 ^ h = count / 2 * 2 ^ (h + 1) + 2 ^ h := by
          have hsplit : count = 2 * (count / 2) + 1 := by omega
          calc count * 2 ^ h = (2 * (count / 2) + 1) * 2 ^ h := by rw [← hsplit]
            _ = count / 2 * 2 ^ (h + 1) + 2 ^ h := by ring
        have hjoin : node h (blockRoot node leaf h (count / 2 * 2 ^ (h + 1)))
            (blockRoot node leaf h (count * 2 ^ h))
            = blockRoot node leaf (h + 1) (count / 2 * 2 ^ (h + 1)) := by
          rw [hstart]
          rfl
        refine ⟨by omega, ?_, ?_⟩
        · rw [if_neg (by omega)]
        · rw [hhalf, hjoin]
          exact ih hrest
      · rw [if_neg hodd] at hpeak
        subst hpeak
        have hhalf : (count + 1) / 2 = count / 2 := by omega
        have hstart : count * 2 ^ h = count / 2 * 2 ^ (h + 1) := by
          have hsplit : count = 2 * (count / 2) := by omega
          calc count * 2 ^ h = 2 * (count / 2) * 2 ^ h := by rw [← hsplit]
            _ = count / 2 * 2 ^ (h + 1) := by ring
        refine ⟨by omega, ?_, ?_⟩
        · rw [if_pos (by omega), hhalf, hstart]
        · rw [hhalf]
          exact hrest

/-- **There is a peak for every binary digit.** -/
theorem Covers.peak {h count : Nat} {peaks : List (Option δ)} (hc : Covers node leaf h count peaks)
    (k : Nat) :
    peaks.getD k none = if count.testBit k
      then some (blockRoot node leaf (h + k) (count / 2 ^ (k + 1) * 2 ^ (h + k + 1))) else none := by
  induction peaks generalizing h count k with
  | nil =>
      obtain rfl : count = 0 := hc
      simp
  | cons peak rest ih =>
      obtain ⟨-, hpeak, hrest⟩ := hc
      cases k with
      | zero =>
          rw [List.getD_cons_zero, hpeak, Nat.testBit_zero]
          simp
      | succ k =>
          rw [List.getD_cons_succ, ih hrest k, Nat.testBit_succ, Nat.div_div_eq_div_mul,
            ← pow_succ', show h + 1 + k = h + (k + 1) by omega]

/-- The peaks are no more than the binary digits. -/
theorem Covers.length_le {h count w : Nat} {peaks : List (Option δ)}
    (hc : Covers node leaf h count peaks) (hw : count < 2 ^ w) : peaks.length ≤ w := by
  induction peaks generalizing h count w with
  | nil => exact Nat.zero_le w
  | cons peak rest ih =>
      obtain ⟨hne, -, hrest⟩ := hc
      cases w with
      | zero => omega
      | succ w =>
          rw [pow_succ] at hw
          exact Nat.succ_le_succ (ih hrest (by omega))

/-- Two covers of one count have their peaks at the same heights. -/
theorem Covers.length_eq {leaf' : Nat → δ} {h count : Nat} {peaks peaks' : List (Option δ)}
    (hc : Covers node leaf h count peaks) (hc' : Covers node leaf' h count peaks') :
    peaks.length = peaks'.length := by
  induction peaks generalizing h count peaks' with
  | nil =>
      obtain rfl : count = 0 := hc
      cases peaks' with
      | nil => rfl
      | cons peak' rest' => exact absurd rfl hc'.1
  | cons peak rest ih =>
      cases peaks' with
      | nil => exact absurd hc' hc.1
      | cons peak' rest' => exact congrArg Nat.succ (ih hc.2.2 hc'.2.2)

end

/-- Every leaf lies in the block of one digit. -/
theorem exists_block {n i : Nat} (hi : i < n) :
    ∃ h, n.testBit h = true ∧ n / 2 ^ (h + 1) * 2 ^ (h + 1) ≤ i
      ∧ i < n / 2 ^ (h + 1) * 2 ^ (h + 1) + 2 ^ h := by
  induction n using Nat.strongRecOn generalizing i with
  | _ n ih =>
      by_cases hlast : n % 2 = 1 ∧ i = n - 1
      · exact ⟨0, by simp [Nat.testBit_zero, hlast.1], by omega, by omega⟩
      · obtain ⟨h, hbit, hlo, hhi⟩ := ih (n / 2) (by omega) (show i / 2 < n / 2 by omega)
        refine ⟨h + 1, by rw [Nat.testBit_succ]; exact hbit, ?_⟩
        have hdiv : n / 2 ^ (h + 1 + 1) = n / 2 / 2 ^ (h + 1) := by
          rw [Nat.div_div_eq_div_mul, ← pow_succ']
        have hpow : n / 2 / 2 ^ (h + 1) * 2 ^ (h + 1 + 1)
            = 2 * (n / 2 / 2 ^ (h + 1) * 2 ^ (h + 1)) := by ring
        have hpow' : 2 ^ (h + 1) = 2 * 2 ^ h := pow_succ' 2 h
        rw [hdiv, hpow, hpow']
        rw [hpow'] at hlo hhi
        omega

/-! ## Binding -/

section

variable {β δ : Type*} (hash : β → δ) (nodeMsg : Nat → δ → δ → β)

/-- The root over the hashes of the leaf messages. -/
def rootOf (leafMsg : Nat → β) : Nat → Nat → δ :=
  blockRoot (fun h x y => hash (nodeMsg h x y)) fun i => hash (leafMsg i)

/-- The message hashed at the root of a block. -/
def blockMsg (leafMsg : Nat → β) : Nat → Nat → β
  | 0, start => leafMsg start
  | h + 1, start =>
      nodeMsg h (rootOf hash nodeMsg leafMsg h start) (rootOf hash nodeMsg leafMsg h (start + 2 ^ h))

/-- Every message hashed for a block. -/
def blockMessages (leafMsg : Nat → β) : Nat → Nat → List β
  | 0, start => [leafMsg start]
  | h + 1, start =>
      blockMsg hash nodeMsg leafMsg (h + 1) start
        :: (blockMessages leafMsg h start ++ blockMessages leafMsg h (start + 2 ^ h))

variable {hash nodeMsg}

theorem rootOf_eq (leafMsg : Nat → β) (h start : Nat) :
    rootOf hash nodeMsg leafMsg h start = hash (blockMsg hash nodeMsg leafMsg h start) := by
  cases h with
  | zero => rfl
  | succ h => rfl

theorem blockMsg_mem (leafMsg : Nat → β) (h start : Nat) :
    blockMsg hash nodeMsg leafMsg h start ∈ blockMessages hash nodeMsg leafMsg h start := by
  cases h with
  | zero => exact List.mem_singleton_self _
  | succ h => exact List.mem_cons_self

/-- **A root determines the leaves of its block** where the hash has no collision. -/
theorem leafMsg_eq_of_rootOf_eq {S : Set β} (hinj : Set.InjOn hash S)
    (hnode : ∀ {h v w x y}, nodeMsg h (hash v) (hash w) = nodeMsg h (hash x) (hash y) →
      hash v = hash x ∧ hash w = hash y)
    {leafMsg leafMsg' : Nat → β} {h start : Nat}
    (hS : ∀ m ∈ blockMessages hash nodeMsg leafMsg h start, m ∈ S)
    (hS' : ∀ m ∈ blockMessages hash nodeMsg leafMsg' h start, m ∈ S)
    (hroot : rootOf hash nodeMsg leafMsg h start = rootOf hash nodeMsg leafMsg' h start)
    {i : Nat} (hlo : start ≤ i) (hhi : i < start + 2 ^ h) : leafMsg i = leafMsg' i := by
  have hmsg : blockMsg hash nodeMsg leafMsg h start = blockMsg hash nodeMsg leafMsg' h start := by
    rw [rootOf_eq, rootOf_eq] at hroot
    exact hinj (hS _ (blockMsg_mem ..)) (hS' _ (blockMsg_mem ..)) hroot
  induction h generalizing start with
  | zero =>
      obtain rfl : i = start := by omega
      exact hmsg
  | succ h ih =>
      have hchildren : hash (blockMsg hash nodeMsg leafMsg h start)
            = hash (blockMsg hash nodeMsg leafMsg' h start)
          ∧ hash (blockMsg hash nodeMsg leafMsg h (start + 2 ^ h))
            = hash (blockMsg hash nodeMsg leafMsg' h (start + 2 ^ h)) := by
        refine @hnode h _ _ _ _ ?_
        have heq := fun leaf k s => @rootOf_eq β δ hash nodeMsg leaf k s
        rw [← heq, ← heq, ← heq, ← heq]
        exact hmsg
      have hsub : ∀ {leaf : Nat → β},
          (∀ m ∈ blockMessages hash nodeMsg leaf (h + 1) start, m ∈ S) →
          (∀ m ∈ blockMessages hash nodeMsg leaf h start, m ∈ S)
            ∧ ∀ m ∈ blockMessages hash nodeMsg leaf h (start + 2 ^ h), m ∈ S := fun hall =>
        ⟨fun m hm => hall m (List.mem_cons_of_mem _ (List.mem_append_left _ hm)),
          fun m hm => hall m (List.mem_cons_of_mem _ (List.mem_append_right _ hm))⟩
      obtain ⟨hl, hr⟩ := hsub hS
      obtain ⟨hl', hr'⟩ := hsub hS'
      rw [pow_succ] at hhi
      by_cases hside : i < start + 2 ^ h
      · have hroots := (rootOf_eq leafMsg h start).trans
          (hchildren.1.trans (rootOf_eq leafMsg' h start).symm)
        exact ih hl hl' hroots hlo hside
          (hinj (hl _ (blockMsg_mem ..)) (hl' _ (blockMsg_mem ..)) hchildren.1)
      · have hroots := (rootOf_eq leafMsg h (start + 2 ^ h)).trans
          (hchildren.2.trans (rootOf_eq leafMsg' h (start + 2 ^ h)).symm)
        exact ih hr hr' hroots (by omega) (by omega)
          (hinj (hr _ (blockMsg_mem ..)) (hr' _ (blockMsg_mem ..)) hchildren.2)

end

end MountainRange
