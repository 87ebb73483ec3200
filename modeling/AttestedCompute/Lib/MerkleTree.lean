import Mathlib

/-!
# Merkle reduction with promoted odd nodes

A list of digests is reduced level by level: neighbours are hashed together, and a
last digest without a neighbour is hashed alone. The reduction of a list of any
length is the digest of a tree whose leaves, from left to right, are the list.

With distinct encodings for leaves, pairs and odd nodes a digest determines its
tree, and hence the list, provided the hash has no collision among the messages of
the two trees compared. Nothing is assumed of the hash elsewhere, and the lengths
of the lists need not be known to agree.
-/

namespace MerkleTree

section

variable {δ : Type*}

/-- One level of the reduction. -/
def nextLevel (node : δ → δ → δ) (odd : δ → δ) : List δ → List δ
  | [] => []
  | [x] => [odd x]
  | x :: y :: rest => node x y :: nextLevel node odd rest

/-- Reduce while more than one digest is left, for at most `fuel` levels. -/
def reduce (node : δ → δ → δ) (odd : δ → δ) : Nat → List δ → List δ
  | 0, level => level
  | fuel + 1, level =>
      if level.length > 1 then reduce node odd fuel (nextLevel node odd level) else level

theorem length_nextLevel (node : δ → δ → δ) (odd : δ → δ) (level : List δ) :
    (nextLevel node odd level).length = (level.length + 1) / 2 := by
  induction level using nextLevel.induct with
  | case1 => simp [nextLevel]
  | case2 x => simp [nextLevel]
  | case3 x y rest ih =>
      rw [nextLevel, List.length_cons, ih, List.length_cons, List.length_cons]
      omega

/-- The reduction of a nonempty level ends in one digest. -/
theorem length_reduce {node : δ → δ → δ} {odd : δ → δ} {fuel : Nat} {level : List δ}
    (hne : 0 < level.length) (hfuel : level.length ≤ fuel) :
    (reduce node odd fuel level).length = 1 := by
  induction fuel generalizing level with
  | zero => omega
  | succ fuel ih =>
      rw [reduce]
      split
      · have hlen := length_nextLevel node odd level
        exact ih (by omega) (by omega)
      · omega

/-- What holds of the leaves and of every node made on the way holds of what is left. -/
theorem forall_mem_reduce {node : δ → δ → δ} {odd : δ → δ} {p : δ → Prop}
    (hnode : ∀ x y, p (node x y)) (hodd : ∀ x, p (odd x)) {fuel : Nat} {level : List δ}
    (h : ∀ x ∈ level, p x) : ∀ x ∈ reduce node odd fuel level, p x := by
  have hnext : ∀ level : List δ, ∀ x ∈ nextLevel node odd level, p x := by
    intro level
    induction level using nextLevel.induct with
    | case1 => intro x hx; cases hx
    | case2 y =>
        intro x hx
        rw [List.mem_singleton.mp hx]
        exact hodd y
    | case3 y z rest ih =>
        intro x hx
        rcases List.mem_cons.mp hx with rfl | hx
        · exact hnode y z
        · exact ih x hx
  induction fuel generalizing level with
  | zero => exact h
  | succ fuel ih =>
      rw [reduce]
      split
      · exact ih (hnext level)
      · exact h

end

/-- The shape of a reduction. -/
inductive Tree (α : Type*) where
  | leaf (a : α)
  | node (left right : Tree α)
  | odd (child : Tree α)

namespace Tree

variable {α : Type*}

/-- The leaves from left to right. -/
def leaves : Tree α → List α
  | leaf a => [a]
  | node left right => left.leaves ++ right.leaves
  | odd child => child.leaves

end Tree

/-- How the three kinds of nodes and the empty list are turned into messages. -/
structure Encoding (α β δ : Type*) where
  leafMsg : α → β
  nodeMsg : δ → δ → β
  oddMsg : δ → β
  emptyMsg : β

section

variable {α β δ : Type*} (enc : Encoding α β δ) (hash : β → δ)

/-- The message hashed at the root of a tree. -/
def Encoding.msg : Tree α → β
  | .leaf a => enc.leafMsg a
  | .node left right => enc.nodeMsg (hash (Encoding.msg left)) (hash (Encoding.msg right))
  | .odd child => enc.oddMsg (hash (Encoding.msg child))

/-- The digest of a tree. -/
def Encoding.digest (t : Tree α) : δ := hash (enc.msg hash t)

/-- Every message hashed for a tree. -/
def Encoding.messages : Tree α → List β
  | .leaf a => [enc.leafMsg a]
  | .node left right =>
      enc.nodeMsg (enc.digest hash left) (enc.digest hash right)
        :: (Encoding.messages left ++ Encoding.messages right)
  | .odd child => enc.oddMsg (enc.digest hash child) :: Encoding.messages child

/-- The reduction, with the encoded messages hashed at every node. -/
def Encoding.reduceDigests (digests : List δ) : List δ :=
  reduce (fun x y => hash (enc.nodeMsg x y)) (fun x => hash (enc.oddMsg x)) digests.length digests

/-- `d` is the root of a list: the hash of the empty message, or what its reduction ends in. -/
def Encoding.IsRoot (items : List α) (d : δ) : Prop :=
  if items = [] then d = hash enc.emptyMsg
  else enc.reduceDigests hash (items.map fun a => hash (enc.leafMsg a)) = [d]

/-- Encodings of different kinds are different messages, and each determines its parts. -/
structure Encoding.Separated : Prop where
  leaf_inj : ∀ {a b}, enc.leafMsg a = enc.leafMsg b → a = b
  node_inj : ∀ {v w x y}, enc.nodeMsg (hash v) (hash w) = enc.nodeMsg (hash x) (hash y) →
    hash v = hash x ∧ hash w = hash y
  odd_inj : ∀ {x y}, enc.oddMsg (hash x) = enc.oddMsg (hash y) → hash x = hash y
  leaf_node : ∀ a x y, enc.leafMsg a ≠ enc.nodeMsg x y
  leaf_odd : ∀ a x, enc.leafMsg a ≠ enc.oddMsg x
  node_odd : ∀ x y z, enc.nodeMsg x y ≠ enc.oddMsg z
  empty_leaf : ∀ a, enc.emptyMsg ≠ enc.leafMsg a
  empty_node : ∀ x y, enc.emptyMsg ≠ enc.nodeMsg x y
  empty_odd : ∀ x, enc.emptyMsg ≠ enc.oddMsg x

/-- The tree that a reduction builds. -/
def treesOf (items : List α) : List (Tree α) :=
  reduce Tree.node Tree.odd items.length (items.map Tree.leaf)

/-- Every message hashed for a list: the empty message, or those of its tree. -/
def Encoding.listMessages (items : List α) : List β :=
  if items = [] then [enc.emptyMsg] else (treesOf items).flatMap (enc.messages hash)

variable {enc hash}

theorem msg_mem_messages (t : Tree α) : enc.msg hash t ∈ enc.messages hash t := by
  cases t with
  | leaf a => exact List.mem_singleton_self _
  | node left right => exact List.mem_cons_self ..
  | odd child => exact List.mem_cons_self ..

/-- Reducing digests is digesting the reduction. -/
theorem reduce_map_digest (fuel : Nat) (trees : List (Tree α)) :
    reduce (fun x y => hash (enc.nodeMsg x y)) (fun x => hash (enc.oddMsg x)) fuel
        (trees.map (enc.digest hash))
      = (reduce Tree.node Tree.odd fuel trees).map (enc.digest hash) := by
  have hlevel : ∀ ts : List (Tree α),
      nextLevel (fun x y => hash (enc.nodeMsg x y)) (fun x => hash (enc.oddMsg x))
          (ts.map (enc.digest hash))
        = (nextLevel Tree.node Tree.odd ts).map (enc.digest hash) := by
    intro ts
    induction ts using nextLevel.induct with
    | case1 => rfl
    | case2 t => rfl
    | case3 s t rest ih =>
        rw [List.map_cons, List.map_cons, nextLevel, ih, nextLevel, List.map_cons]
        rfl
  induction fuel generalizing trees with
  | zero => rfl
  | succ fuel ih =>
      rw [reduce, reduce, List.length_map]
      split
      · rw [hlevel, ih]
      · rfl

theorem leaves_reduce (fuel : Nat) (trees : List (Tree α)) :
    (reduce Tree.node Tree.odd fuel trees).flatMap Tree.leaves = trees.flatMap Tree.leaves := by
  have hlevel : ∀ ts : List (Tree α),
      (nextLevel Tree.node Tree.odd ts).flatMap Tree.leaves = ts.flatMap Tree.leaves := by
    intro ts
    induction ts using nextLevel.induct with
    | case1 => rfl
    | case2 t => rfl
    | case3 s t rest ih =>
        rw [nextLevel, List.flatMap_cons, ih, List.flatMap_cons, List.flatMap_cons]
        exact List.append_assoc ..
  induction fuel generalizing trees with
  | zero => rfl
  | succ fuel ih =>
      rw [reduce]
      split
      · rw [ih, hlevel]
      · rfl

/-- A nonempty list reduces to one tree, whose leaves are the list. -/
theorem exists_tree {items : List α} (h : items ≠ []) :
    ∃ t, treesOf items = [t] ∧ t.leaves = items := by
  have hpos : 0 < (items.map Tree.leaf).length := by
    rw [List.length_map]
    exact List.length_pos_of_ne_nil h
  have hone : (treesOf items).length = 1 := length_reduce hpos (by rw [List.length_map])
  obtain ⟨t, ht⟩ := List.length_eq_one_iff.mp hone
  refine ⟨t, ht, ?_⟩
  have hleaves := leaves_reduce items.length (items.map Tree.leaf)
  rw [← treesOf, ht, List.flatMap_singleton] at hleaves
  rw [hleaves, List.flatMap_map]
  exact List.flatMap_singleton' items

/-- **A digest determines its tree** where the hash has no collision. -/
theorem digest_injective (hsep : enc.Separated hash) {s t : Tree α}
    (hinj : Set.InjOn hash {m | m ∈ enc.messages hash s ∨ m ∈ enc.messages hash t})
    (h : enc.digest hash s = enc.digest hash t) : s = t := by
  induction s generalizing t with
  | leaf a =>
      have hmsg := hinj (.inl (msg_mem_messages _)) (.inr (msg_mem_messages _)) h
      cases t with
      | leaf b => rw [hsep.leaf_inj hmsg]
      | node left right => exact absurd hmsg (hsep.leaf_node _ _ _)
      | odd child => exact absurd hmsg (hsep.leaf_odd _ _)
  | node left right ihl ihr =>
      have hmsg := hinj (.inl (msg_mem_messages _)) (.inr (msg_mem_messages _)) h
      cases t with
      | leaf b => exact absurd hmsg.symm (hsep.leaf_node _ _ _)
      | node left' right' =>
          obtain ⟨hl, hr⟩ := hsep.node_inj hmsg
          have hleft := ihl (hinj.mono fun m hm => by
            rcases hm with hm | hm
            · exact .inl (List.mem_cons_of_mem _ (List.mem_append_left _ hm))
            · exact .inr (List.mem_cons_of_mem _ (List.mem_append_left _ hm))) hl
          have hright := ihr (hinj.mono fun m hm => by
            rcases hm with hm | hm
            · exact .inl (List.mem_cons_of_mem _ (List.mem_append_right _ hm))
            · exact .inr (List.mem_cons_of_mem _ (List.mem_append_right _ hm))) hr
          rw [hleft, hright]
      | odd child => exact absurd hmsg (hsep.node_odd _ _ _)
  | odd child ih =>
      have hmsg := hinj (.inl (msg_mem_messages _)) (.inr (msg_mem_messages _)) h
      cases t with
      | leaf b => exact absurd hmsg.symm (hsep.leaf_odd _ _)
      | node left' right' => exact absurd hmsg.symm (hsep.node_odd _ _ _)
      | odd child' =>
          have hchild := ih (hinj.mono fun m hm => by
            rcases hm with hm | hm
            · exact .inl (List.mem_cons_of_mem _ hm)
            · exact .inr (List.mem_cons_of_mem _ hm)) (hsep.odd_inj hmsg)
          rw [hchild]

/-- The root of a nonempty list is the digest of its tree. -/
theorem isRoot_iff {items : List α} {t : Tree α} (ht : treesOf items = [t]) (hne : items ≠ [])
    {d : δ} : enc.IsRoot hash items d ↔ d = enc.digest hash t := by
  have hleaf : items.map (fun a => hash (enc.leafMsg a))
      = (items.map Tree.leaf).map (enc.digest hash) := by
    rw [List.map_map]
    rfl
  rw [Encoding.IsRoot, if_neg hne, Encoding.reduceDigests, List.length_map, hleaf,
    reduce_map_digest, ← treesOf, ht, List.map_singleton, List.singleton_inj, eq_comm]

/-- **A root determines its list**, whatever the two lengths. -/
theorem root_injective (hsep : enc.Separated hash) {xs ys : List α} {d : δ}
    (hinj : Set.InjOn hash {m | m ∈ enc.listMessages hash xs ∨ m ∈ enc.listMessages hash ys})
    (hx : enc.IsRoot hash xs d) (hy : enc.IsRoot hash ys d) : xs = ys := by
  have hempty : ∀ t : Tree α, enc.emptyMsg ≠ enc.msg hash t := by
    intro t
    cases t with
    | leaf a => exact hsep.empty_leaf a
    | node left right => exact hsep.empty_node _ _
    | odd child => exact hsep.empty_odd _
  have hmem : ∀ {items : List α} {t : Tree α}, treesOf items = [t] → items ≠ [] →
      ∀ {m : β}, m ∈ enc.messages hash t → m ∈ enc.listMessages hash items := by
    intro items t ht hne m hm
    rw [Encoding.listMessages, if_neg hne, ht, List.flatMap_singleton]
    exact hm
  have hnil : enc.emptyMsg ∈ enc.listMessages hash ([] : List α) := by
    rw [Encoding.listMessages, if_pos rfl]
    exact List.mem_singleton_self _
  by_cases hxs : xs = []
  · by_cases hys : ys = []
    · rw [hxs, hys]
    · obtain ⟨t, ht, -⟩ := exists_tree hys
      subst hxs
      have hroot : hash enc.emptyMsg = enc.digest hash t := hx.symm.trans ((isRoot_iff ht hys).mp hy)
      exact absurd (hinj (.inl hnil) (.inr (hmem ht hys (msg_mem_messages t))) hroot) (hempty t)
  · obtain ⟨s, hs, hleaves⟩ := exists_tree hxs
    by_cases hys : ys = []
    · subst hys
      have hroot : enc.digest hash s = hash enc.emptyMsg := ((isRoot_iff hs hxs).mp hx).symm.trans hy
      exact absurd (hinj (.inl (hmem hs hxs (msg_mem_messages s))) (.inr hnil) hroot).symm (hempty s)
    · obtain ⟨t, ht, hleaves'⟩ := exists_tree hys
      have hroot : enc.digest hash s = enc.digest hash t :=
        ((isRoot_iff hs hxs).mp hx).symm.trans ((isRoot_iff ht hys).mp hy)
      have hst := digest_injective hsep (hinj.mono fun m hm => by
        rcases hm with hm | hm
        · exact .inl (hmem hs hxs hm)
        · exact .inr (hmem ht hys hm)) hroot
      rw [← hleaves, ← hleaves', hst]

end

end MerkleTree
