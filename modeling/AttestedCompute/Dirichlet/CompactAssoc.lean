import AttestedCompute.Dirichlet.CompactMerge

/-!
# Grouping compact states

Both groupings of three states in a row join them to one and the same state, if they succeed.
They succeed on totals that are machine words, and when the validator lets every character
through; what it lets through depends on the grouping (`combine_assoc_iff`). A reduction over
any tree commits to the leaves in order (`Reduction.leafSequence`).
-/

namespace AttestedCompute.Dirichlet

open Fallible CharacterRecord CompactState

variable {roster : Roster} {a b c r : CompactState} {ids : List RosterIdentity}

/-- `combine(combine(a, b), c)` -/
def combineLeft (roster : Roster) (a b c : CompactState) : Checked CompactState := do
  let ab ← a.combine roster b
  ab.combine roster c

/-- `combine(a, combine(b, c))` -/
def combineRight (roster : Roster) (a b c : CompactState) : Checked CompactState := do
  let bc ← b.combine roster c
  a.combine roster bc

/-- The records of each character. -/
def triples (a b c : CompactState) : List (CharacterRecord × CharacterRecord × CharacterRecord) :=
  a.characterStates.zip (b.characterStates.zip c.characterStates)

/-- The sign changes across the two cuts, of all characters. -/
def cutTotal (a b c : CompactState) : Int :=
  ((triples a b c).map fun t => cutCount t.1 t.2.1 t.2.2).sum

/-- The totals of three states are machine words, and their frames can be printed. -/
structure TotalsFit (a b c : CompactState) : Prop where
  leaves : a.leafEventSummaryCount + b.leafEventSummaryCount + c.leafEventSummaryCount
    ≤ MAX_EVENT_COUNT
  signChanges : a.signChangeLowerBound + b.signChangeLowerBound + c.signChangeLowerBound
    + cutTotal a b c ≤ MAX_EVENT_COUNT
  ambiguities : a.ambiguitySampleCount + b.ambiguitySampleCount + c.ambiguitySampleCount
    ≤ MAX_EVENT_COUNT
  frames : Json.fits
    (.int (a.context.frameCount + b.context.frameCount + c.context.frameCount)) = true

/-- The commitment of the state is the one to these leaves. -/
def LeafSequence (s : CompactState) (leaves : List Nat) : Prop :=
  s.leafEventSummaryCount = leaves.length
    ∧ hexValue s.leafEventSummaryCommitment.valueHex
      = Positional.value ROLLING_BASE leaves % ROLLING_MODULUS

/-! ## Three lists of records -/

theorem mem_triples {t : CharacterRecord × CharacterRecord × CharacterRecord} :
    t ∈ triples a b c ↔ ∃ i : Nat, a.characterStates[i]? = some t.1
      ∧ b.characterStates[i]? = some t.2.1 ∧ c.characterStates[i]? = some t.2.2 := by
  obtain ⟨x, y, z⟩ := t
  simp only [triples, List.mem_iff_getElem?, List.getElem?_zip_eq_some]

theorem insertedCrossings_cons {x y : CharacterRecord} (xs ys : List CharacterRecord) :
    insertedCrossings (x :: xs) (y :: ys)
      = (merge x y).bracketCount - x.bracketCount - y.bracketCount + insertedCrossings xs ys := by
  rw [insertedCrossings, mergedStates, List.zipWith_cons_cons, (totals_cons _ _).1,
    (totals_cons x xs).1, (totals_cons y ys).1, ← mergedStates, insertedCrossings]
  omega

/-- The crossings of both merges are those of the two cuts. -/
theorem inserted_cuts {xs ys zs : List CharacterRecord} (hy : xs.length = ys.length)
    (hz : ys.length = zs.length) :
    insertedCrossings xs ys + insertedCrossings (mergedStates xs ys) zs
      = ((xs.zip (ys.zip zs)).map fun t => cutCount t.1 t.2.1 t.2.2).sum := by
  induction xs generalizing ys zs with
  | nil =>
      rw [List.eq_nil_of_length_eq_zero hy.symm] at hz ⊢
      rw [List.eq_nil_of_length_eq_zero hz.symm]
      rfl
  | cons x xs ih =>
      obtain ⟨y, ys, rfl⟩ := List.exists_cons_of_length_eq_add_one hy.symm
      obtain ⟨z, zs, rfl⟩ := List.exists_cons_of_length_eq_add_one hz.symm
      have hrest := @ih ys zs (Nat.succ.inj hy) (Nat.succ.inj hz)
      have hmerged : mergedStates (x :: xs) (y :: ys) = merge x y :: mergedStates xs ys := rfl
      rw [hmerged, insertedCrossings_cons, insertedCrossings_cons, List.zip_cons_cons,
        List.zip_cons_cons, List.map_cons, List.sum_cons, ← hrest, merge_merge_bracketCount]
      show _ = cutCount x y z + _
      omega

theorem Adjacent.joinLeft {ca cb cc : CompactContext} (hab : Adjacent ca cb)
    (hbc : Adjacent cb cc) : Adjacent (joinContexts ca cb) cc :=
  ⟨hab.q.trans hbc.q, hab.count.trans hbc.count, hab.denominator.trans hbc.denominator,
    hab.step.trans hbc.step, hbc.cut⟩

theorem Adjacent.joinRight {ca cb cc : CompactContext} (hab : Adjacent ca cb)
    (_ : Adjacent cb cc) : Adjacent ca (joinContexts cb cc) :=
  ⟨hab.q, hab.count, hab.denominator, hab.step, hab.cut⟩

section

variable (ha : a.Accepted roster ids) (hb : b.Accepted roster ids) (hc : c.Accepted roster ids)
  (hab : Adjacent a.context b.context) (hbc : Adjacent b.context c.context)

include ha hb hc

/-- The characters of three accepted states have one index set. -/
theorem getElem?_third {i : Nat} {x : CharacterRecord} (hx : a.characterStates[i]? = some x) :
    ∃ y z, b.characterStates[i]? = some y ∧ c.characterStates[i]? = some z := by
  have hlength := ha.length_eq hb
  have hlength' := hb.length_eq hc
  obtain ⟨hi, _⟩ := List.getElem?_eq_some_iff.mp hx
  have hib : i < b.characterStates.length := by omega
  have hic : i < c.characterStates.length := by omega
  exact ⟨_, _, List.getElem?_eq_getElem hib, List.getElem?_eq_getElem hic⟩

theorem totalsFit_iff : TotalsFit a b c ↔ ((a.join b).join c).InRange ∧ Json.fits
    (.int (a.context.frameCount + b.context.frameCount + c.context.frameCount)) = true := by
  have hcuts := inserted_cuts (ha.length_eq hb) (hb.length_eq hc)
  have hsum := ha.totals.sum
  have hsum' := hb.totals.sum
  have hsum'' := hc.totals.sum
  have hbrackets : ((a.join b).join c).signChangeLowerBound
      = a.signChangeLowerBound + b.signChangeLowerBound + c.signChangeLowerBound
        + cutTotal a b c := by
    simp only [join, cutTotal, triples, ← hcuts]
    omega
  constructor
  · intro h
    exact ⟨⟨h.leaves, hbrackets ▸ h.signChanges, h.ambiguities⟩, h.frames⟩
  · intro hall
    obtain ⟨h, hframes⟩ := hall
    exact ⟨h.leaves, hbrackets ▸ h.brackets, h.ambiguities, hframes⟩

/-- The parts of a join that is in range are in range. -/
theorem inRange_left (h : ((a.join b).join c).InRange) : (a.join b).InRange := by
  have hlength := ha.length_eq hb
  have hlength' := hb.length_eq hc
  have hinserted := inserted_bounds ((length_mergedStates hlength).trans (hlength.trans hlength'))
  have hleaves := hc.committed.leaves
  have hambiguities := hc.ambiguities_nonneg
  have hinternal := hc.totals.internal
  have hcross := hc.totals.cross
  obtain ⟨h₁, h₂, h₃⟩ := h
  simp only [join] at h₁ h₂ h₃
  refine ⟨?_, ?_, ?_⟩ <;> simp only [join] <;> omega

theorem inRange_right (h : (a.join (b.join c)).InRange) : (b.join c).InRange := by
  have hlength := ha.length_eq hb
  have hlength' := hb.length_eq hc
  have hinserted := inserted_bounds (hlength.trans (length_mergedStates hlength').symm)
  have hleaves := ha.committed.leaves
  have hambiguities := ha.ambiguities_nonneg
  have hinternal := ha.totals.internal
  have hcross := ha.totals.cross
  obtain ⟨h₁, h₂, h₃⟩ := h
  simp only [join] at h₁ h₂ h₃
  refine ⟨?_, ?_, ?_⟩ <;> simp only [join] <;> omega

/-- Frames of a part can be printed. -/
theorem frames_left (h : TotalsFit a b c) :
    Json.fits (.int (a.context.frameCount + b.context.frameCount)) = true := by
  have h₁ := ha.context.frames
  have h₂ := hb.context.frames
  have h₃ := hc.context.frames
  exact Json.fits_int_of_le (by omega) h.frames

theorem frames_right (h : TotalsFit a b c) :
    Json.fits (.int (b.context.frameCount + c.context.frameCount)) = true := by
  have h₁ := ha.context.frames
  have h₂ := hb.context.frames
  have h₃ := hc.context.frames
  exact Json.fits_int_of_le (by omega) h.frames

include hab hbc

/-- The three records of a character are valid, and in a row. -/
theorem triple_inRow {x y z : CharacterRecord} {i : Nat} (hx : a.characterStates[i]? = some x)
    (hy : b.characterStates[i]? = some y) (hz : c.characterStates[i]? = some z) :
    ∃ start m n k, Valid x start m ∧ Valid y (after start m.length) n
      ∧ Valid z (after (after start m.length) n.length) k := by
  obtain ⟨identity, hidentity, hfitsx⟩ := ha.identity hx
  have hfitsy := hb.characters i y identity hy hidentity
  have hfitsz := hc.characters i z identity hz hidentity
  obtain ⟨m, n, hrow, hlength, hlength'⟩ := hfitsx.inRow hfitsy hab ha.context
  obtain ⟨k, hvalid, _⟩ := hfitsz.valid
  rw [← hbc.cut, ← hb.context.after_samples hlength', ← hab.cut, ← ha.context.after_samples hlength]
    at hvalid
  exact ⟨_, m, n, k, hrow.left, hrow.right, hvalid⟩

theorem acceptsLeft_states : (∀ t ∈ triples a b c, AcceptsLeft t.1 t.2.1 t.2.2)
    ↔ Agree a.characterStates b.characterStates
      ∧ Agree (a.join b).characterStates c.characterStates := by
  constructor
  · intro h
    refine ⟨fun i x y hx hy => ?_, fun i w z hw hz => ?_⟩
    · obtain ⟨_, z, _, hz⟩ := getElem?_third ha hb hc hx
      obtain ⟨start, m, n, k, hvx, hvy, _⟩ := triple_inRow ha hb hc hab hbc hx hy hz
      exact ((acceptsLeft_iff hvx hvy z).mp (h (x, y, z) (mem_triples.mpr ⟨i, hx, hy, hz⟩))).1
    · obtain ⟨x, y, hx, hy, rfl⟩ := getElem?_mergedStates hw
      obtain ⟨start, m, n, k, hvx, hvy, _⟩ := triple_inRow ha hb hc hab hbc hx hy hz
      exact ((acceptsLeft_iff hvx hvy z).mp (h (x, y, z) (mem_triples.mpr ⟨i, hx, hy, hz⟩))).2
  · intro hall t ht
    obtain ⟨hpair, hthird⟩ := hall
    obtain ⟨i, hx, hy, hz⟩ := mem_triples.mp ht
    obtain ⟨start, m, n, k, hvx, hvy, _⟩ := triple_inRow ha hb hc hab hbc hx hy hz
    have hmerged : (a.join b).characterStates[i]? = some (merge t.1 t.2.1) :=
      List.getElem?_zipWith_eq_some.mpr ⟨_, _, hx, hy, rfl⟩
    exact (acceptsLeft_iff hvx hvy t.2.2).mpr ⟨hpair i _ _ hx hy, hthird i _ _ hmerged hz⟩

theorem acceptsRight_states : (∀ t ∈ triples a b c, AcceptsRight t.1 t.2.1 t.2.2)
    ↔ Agree b.characterStates c.characterStates
      ∧ Agree a.characterStates (b.join c).characterStates := by
  have hlength := ha.length_eq hb
  constructor
  · intro h
    refine ⟨fun i y z hy hz => ?_, fun i x w hx hw => ?_⟩
    · obtain ⟨x, _, hx, _⟩ := getElem?_third hb ha hc hy
      obtain ⟨start, m, n, k, _, hvy, hvz⟩ := triple_inRow ha hb hc hab hbc hx hy hz
      exact ((acceptsRight_iff x hvy hvz).mp (h (x, y, z) (mem_triples.mpr ⟨i, hx, hy, hz⟩))).1
    · obtain ⟨y, z, hy, hz, rfl⟩ := getElem?_mergedStates hw
      obtain ⟨start, m, n, k, _, hvy, hvz⟩ := triple_inRow ha hb hc hab hbc hx hy hz
      exact ((acceptsRight_iff x hvy hvz).mp (h (x, y, z) (mem_triples.mpr ⟨i, hx, hy, hz⟩))).2
  · intro hall t ht
    obtain ⟨hpair, hthird⟩ := hall
    obtain ⟨i, hx, hy, hz⟩ := mem_triples.mp ht
    obtain ⟨start, m, n, k, _, hvy, hvz⟩ := triple_inRow ha hb hc hab hbc hx hy hz
    have hmerged : (b.join c).characterStates[i]? = some (merge t.2.1 t.2.2) :=
      List.getElem?_zipWith_eq_some.mpr ⟨_, _, hy, hz, rfl⟩
    exact (acceptsRight_iff t.1 hvy hvz).mpr ⟨hpair i _ _ hy hz, hthird i _ _ hx hmerged⟩

/-! ## What each grouping returns -/

theorem combineLeft_ok : combineLeft roster a b c = .ok r
    ↔ (∀ t ∈ triples a b c, AcceptsLeft t.1 t.2.1 t.2.2) ∧ TotalsFit a b c
      ∧ ((a.join b).join c).sealState = .ok r := by
  have hnext := hab.joinLeft hbc
  rw [acceptsLeft_states ha hb hc hab hbc, totalsFit_iff ha hb hc]
  simp only [combineLeft, bind_ok]
  constructor
  · intro hall
    obtain ⟨ab, hfirst, hsecond⟩ := hall
    obtain ⟨hagree, hrange, hseal⟩ := (combine_states_ok ha hb hab).mp hfirst
    have hjoined := ha.join hb hab hagree hrange hseal
    obtain ⟨hash, _, rfl⟩ := sealState_ok.mp hseal
    obtain ⟨hagree', hrange', hseal'⟩ := (combine_states_ok hjoined hc hnext).mp hsecond
    have hframes := (sealState_join_isOk hjoined hc hnext hagree' hrange').mp ⟨r, hseal'⟩
    exact ⟨⟨hagree, hagree'⟩,
      ⟨⟨hrange'.leaves, hrange'.brackets, hrange'.ambiguities⟩, hframes⟩, hseal'⟩
  · intro hall
    obtain ⟨⟨hagree, hagree'⟩, hfit, hseal'⟩ := hall
    have hrange := inRange_left ha hb hc hfit.1
    have hframes := frames_left ha hb hc ((totalsFit_iff ha hb hc).mpr hfit)
    obtain ⟨ab, hseal⟩ := (sealState_join_isOk ha hb hab hagree hrange).mpr hframes
    have hjoined := ha.join hb hab hagree hrange hseal
    refine ⟨ab, (combine_states_ok ha hb hab).mpr ⟨hagree, hrange, hseal⟩, ?_⟩
    obtain ⟨hash, _, rfl⟩ := sealState_ok.mp hseal
    exact (combine_states_ok hjoined hc hnext).mpr
      ⟨hagree', ⟨hfit.1.leaves, hfit.1.brackets, hfit.1.ambiguities⟩, hseal'⟩

theorem combineRight_ok : combineRight roster a b c = .ok r
    ↔ (∀ t ∈ triples a b c, AcceptsRight t.1 t.2.1 t.2.2) ∧ TotalsFit a b c
      ∧ ((a.join b).join c).sealState = .ok r := by
  have hnext := hab.joinRight hbc
  rw [acceptsRight_states ha hb hc hab hbc, totalsFit_iff ha hb hc, join_assoc a hb hc]
  simp only [combineRight, bind_ok]
  constructor
  · intro hall
    obtain ⟨bc, hfirst, hsecond⟩ := hall
    obtain ⟨hagree, hrange, hseal⟩ := (combine_states_ok hb hc hbc).mp hfirst
    have hjoined := hb.join hc hbc hagree hrange hseal
    obtain ⟨hash, _, rfl⟩ := sealState_ok.mp hseal
    obtain ⟨hagree', hrange', hseal'⟩ := (combine_states_ok ha hjoined hnext).mp hsecond
    have hframes : Json.fits (.int (a.context.frameCount
        + (b.context.frameCount + c.context.frameCount))) = true :=
      (sealState_join_isOk ha hjoined hnext hagree' hrange').mp ⟨r, hseal'⟩
    rw [← Int.add_assoc] at hframes
    exact ⟨⟨hagree, hagree'⟩,
      ⟨⟨hrange'.leaves, hrange'.brackets, hrange'.ambiguities⟩, hframes⟩, hseal'⟩
  · intro hall
    obtain ⟨⟨hagree, hagree'⟩, hfit, hseal'⟩ := hall
    have hrange := inRange_right ha hb hc hfit.1
    have htotals := (totalsFit_iff ha hb hc).mpr ((join_assoc a hb hc).symm ▸ hfit)
    have hframes := frames_right ha hb hc htotals
    obtain ⟨bc, hseal⟩ := (sealState_join_isOk hb hc hbc hagree hrange).mpr hframes
    have hjoined := hb.join hc hbc hagree hrange hseal
    refine ⟨bc, (combine_states_ok hb hc hbc).mpr ⟨hagree, hrange, hseal⟩, ?_⟩
    obtain ⟨hash, _, rfl⟩ := sealState_ok.mp hseal
    exact (combine_states_ok ha hjoined hnext).mpr
      ⟨hagree', ⟨hfit.1.leaves, hfit.1.brackets, hfit.1.ambiguities⟩, hseal'⟩

/-- A grouping that accepts every character returns a state. -/
theorem exists_sealed (hfit : TotalsFit a b c)
    (haccepts : (∀ t ∈ triples a b c, AcceptsLeft t.1 t.2.1 t.2.2)
      ∨ ∀ t ∈ triples a b c, AcceptsRight t.1 t.2.1 t.2.2) :
    ∃ r, ((a.join b).join c).sealState = .ok r := by
  have hrange := (totalsFit_iff ha hb hc).mp hfit
  rcases haccepts with hleft | hright
  · obtain ⟨hagree, hagree'⟩ := (acceptsLeft_states ha hb hc hab hbc).mp hleft
    have hfirst := inRange_left ha hb hc hrange.1
    obtain ⟨ab, hseal⟩ := (sealState_join_isOk ha hb hab hagree hfirst).mpr
      (frames_left ha hb hc hfit)
    have hjoined := ha.join hb hab hagree hfirst hseal
    obtain ⟨hash, _, rfl⟩ := sealState_ok.mp hseal
    exact (sealState_join_isOk hjoined hc (hab.joinLeft hbc) hagree'
      ⟨hrange.1.leaves, hrange.1.brackets, hrange.1.ambiguities⟩).mpr hfit.frames
  · obtain ⟨hagree, hagree'⟩ := (acceptsRight_states ha hb hc hab hbc).mp hright
    rw [join_assoc a hb hc] at hrange ⊢
    have hsecond := inRange_right ha hb hc hrange.1
    obtain ⟨bc, hseal⟩ := (sealState_join_isOk hb hc hbc hagree hsecond).mpr
      (frames_right ha hb hc hfit)
    have hjoined := hb.join hc hbc hagree hsecond hseal
    obtain ⟨hash, _, rfl⟩ := sealState_ok.mp hseal
    have hframes := hfit.frames
    rw [Int.add_assoc] at hframes
    exact (sealState_join_isOk ha hjoined (hab.joinRight hbc) hagree'
      ⟨hrange.1.leaves, hrange.1.brackets, hrange.1.ambiguities⟩).mpr hframes

end

/-! ## The leaf commitment of a reduction -/

theorem leafSequence_combine {xs ys : List Nat} (hr : a.combine roster b = .ok r)
    (hxs : LeafSequence a xs) (hys : LeafSequence b ys) : LeafSequence r (xs ++ ys) := by
  have hvalid : (∃ ids, a.Accepted roster ids) ∧ (∃ ids, b.Accepted roster ids)
      ∧ adjacentContexts a.context b.context = true := by
    simp only [CompactState.combine, bind_ok, failIf_ok, Bool.not_eq_false] at hr
    obtain ⟨_, hva, _, hvb, _, hadjacent, _⟩ := hr
    exact ⟨(validate_ok_iff.mp hva).1, (validate_ok_iff.mp hvb).1, hadjacent⟩
  obtain ⟨⟨ids, ha⟩, ⟨ids', hb⟩, hadjacent⟩ := hvalid
  have hab := adjacentContexts_iff.mp hadjacent
  have hids := ha.sameRoster hb hab
  subst hids
  obtain ⟨_, _, hseal⟩ := (combine_states_ok ha hb hab).mp hr
  obtain ⟨hash, _, rfl⟩ := sealState_ok.mp hseal
  obtain ⟨hcount, hvalue⟩ := hxs
  obtain ⟨hcount', hvalue'⟩ := hys
  refine ⟨?_, ?_⟩
  · show a.leafEventSummaryCount + b.leafEventSummaryCount = _
    rw [hcount, hcount', List.length_append, Nat.cast_add]
  · refine (joined_commitment a b).trans ?_
    rw [hvalue, hvalue', hcount', joinCommitments, Int.toNat_natCast]
    exact RollingHash.join_commit xs ys

/-- A reduction of shards in a row, over any tree. -/
inductive Reduction where
  | shard (state : CompactState)
  | merge (left right : Reduction)

namespace Reduction

def run (roster : Roster) : Reduction → Checked CompactState
  | shard state => pure state
  | merge left right => do
      let left ← left.run roster
      let right ← right.run roster
      left.combine roster right

def shards : Reduction → List CompactState
  | shard state => [state]
  | merge left right => left.shards ++ right.shards

/-- **A reduction commits to the leaves of its shards, in order**, whatever its tree. -/
theorem leafSequence (leaves : CompactState → List Nat) (tree : Reduction)
    (hr : tree.run roster = .ok r) (hleaves : ∀ s ∈ tree.shards, LeafSequence s (leaves s)) :
    LeafSequence r (tree.shards.flatMap leaves) := by
  induction tree generalizing r with
  | shard state =>
      rw [run, pure_ok] at hr
      subst hr
      rw [shards, List.flatMap_singleton]
      exact hleaves state List.mem_cons_self
  | merge left right ihl ihr =>
      simp only [run, bind_ok] at hr
      obtain ⟨s, hs, t, ht, hr⟩ := hr
      rw [shards, List.flatMap_append]
      exact leafSequence_combine hr
        (ihl hs fun s h => hleaves s (List.mem_append_left _ h))
        (ihr ht fun s h => hleaves s (List.mem_append_right _ h))

end Reduction

/-! ## The two groupings -/

/-- **When merging is associative.** Both groupings fail, or return one state with one hash,
whose commitment is that of all leaves in order: exactly when, on totals that fit, they
accept the same characters. -/
theorem combine_assoc_iff (roster : Roster) (a b c : CompactState)
    (ha : ∃ summary, a.validate roster = .ok summary)
    (hb : ∃ summary, b.validate roster = .ok summary)
    (hc : ∃ summary, c.validate roster = .ok summary)
    (hab : adjacentContexts a.context b.context = true)
    (hbc : adjacentContexts b.context c.context = true) :
    ((∀ r, combineLeft roster a b c = .ok r ↔ combineRight roster a b c = .ok r)
        ∧ ∀ r xs ys zs, combineLeft roster a b c = .ok r ∨ combineRight roster a b c = .ok r →
          LeafSequence a xs → LeafSequence b ys → LeafSequence c zs →
          LeafSequence r (xs ++ ys ++ zs))
      ↔ (TotalsFit a b c → ((∀ t ∈ triples a b c, AcceptsLeft t.1 t.2.1 t.2.2)
        ↔ ∀ t ∈ triples a b c, AcceptsRight t.1 t.2.1 t.2.2)) := by
  obtain ⟨_, ha⟩ := ha
  obtain ⟨_, hb⟩ := hb
  obtain ⟨_, hc⟩ := hc
  obtain ⟨⟨ids, ha⟩, _⟩ := validate_ok_iff.mp ha
  obtain ⟨⟨ids', hb⟩, _⟩ := validate_ok_iff.mp hb
  obtain ⟨⟨ids'', hc⟩, _⟩ := validate_ok_iff.mp hc
  have hab := adjacentContexts_iff.mp hab
  have hbc := adjacentContexts_iff.mp hbc
  have hids := ha.sameRoster hb hab
  subst hids
  have hids := hb.sameRoster hc hbc
  subst hids
  have hsequence : ∀ r xs ys zs,
      combineLeft roster a b c = .ok r ∨ combineRight roster a b c = .ok r →
      LeafSequence a xs → LeafSequence b ys → LeafSequence c zs →
      LeafSequence r (xs ++ ys ++ zs) := by
    intro r xs ys zs hr hxs hys hzs
    simp only [combineLeft, combineRight, bind_ok] at hr
    rcases hr with ⟨ab, hfirst, hr⟩ | ⟨bc, hfirst, hr⟩
    · exact leafSequence_combine hr (leafSequence_combine hfirst hxs hys) hzs
    · rw [List.append_assoc]
      exact leafSequence_combine hr hxs (leafSequence_combine hfirst hys hzs)
  simp only [combineLeft_ok ha hb hc hab hbc, combineRight_ok ha hb hc hab hbc] at hsequence ⊢
  constructor
  · intro hall hfit
    obtain ⟨hsame, -⟩ := hall
    constructor
    · intro hleft
      obtain ⟨r, hr⟩ := exists_sealed ha hb hc hab hbc hfit (.inl hleft)
      exact ((hsame r).mp ⟨hleft, hfit, hr⟩).1
    · intro hright
      obtain ⟨r, hr⟩ := exists_sealed ha hb hc hab hbc hfit (.inr hright)
      exact ((hsame r).mpr ⟨hright, hfit, hr⟩).1
  · intro h
    refine ⟨fun r => ⟨fun ⟨hleft, hfit, hr⟩ => ?_, fun ⟨hright, hfit, hr⟩ => ?_⟩, hsequence⟩
    · exact ⟨(h hfit).mp hleft, hfit, hr⟩
    · exact ⟨(h hfit).mpr hright, hfit, hr⟩

/-! ## Two incoherent shards in a row -/

/-- The roster of modulus 3: one odd primitive character. -/
def rosterOfThree : Roster := fun q =>
  if q = 3 then .ok [⟨0, 2, 1⟩] else .error (.failed "no roster")

/-- Two determinate samples without a bracket. -/
def twoSamples (start first last : Int) : CharacterRecord where
  conreyNumber := 2
  primitiveOrdinal := 0
  parity := .int 1
  sampleCount := 2
  firstDeterminateNumerator := some start
  firstSign := .int first
  lastDeterminateNumerator := some (start + 5)
  lastSign := .int last
  leadingAmbiguityCount := 0
  trailingAmbiguityCount := 0
  ambiguityCount := 0
  positiveCount := (if first = 1 then 1 else 0) + if last = 1 then 1 else 0
  negativeCount := (if first = 1 then 0 else 1) + if last = 1 then 0 else 1
  bracketCount := 0
  multiplicityLowerBoundSum := 0
  ambiguityRanges := []
  bracketRecords := []

/-- A shard of two samples, with one leaf. -/
def shardOf (start first last : Int) : CompactState where
  schema := COMPACT_STATE_SCHEMA
  schemaVersion := 2
  classification := COMPACT_STATE_CLASSIFICATION
  context := ⟨3, 1, 2, start, start + 10, SOURCE_SAMPLE_DENOMINATOR, SOURCE_SAMPLE_NUMERATOR⟩
  characterStates := [twoSamples start first last]
  leafEventSummaryCount := 1
  leafEventSummaryCommitment := compactStateCommitment 1 0
  internalSignChangeCount := 0
  crossBoundarySignChangeCount := 0
  signChangeLowerBound := 0
  ambiguitySampleCount := 0
  exactAmbiguityRangesRetained := true
  orderedBracketRecordsRetained := true
  refinementArtifactsComplete := false
  turingCompleteness := false
  sourceScaleStateEncoding := false
  externalAtomDischarged := false
  stateSha256 := []

/-- The state with its hash, where the hash can be taken. -/
def sealed (s : CompactState) : CompactState := s.sealState.toOption.getD s

theorem sealed_eq {s : CompactState} (h : s.sealState = .ok r) : sealed s = r := by
  have hsome : s.sealState.toOption = some r := by rw [h]; rfl
  exact Option.getD_eq_iff.mpr (.inl hsome)

/-- The shards whose records the validator accepts are accepted. -/
theorem accepted_shardOf {start first last : Int}
    (hcontext : checkContext (shardOf start first last).context = .ok ())
    (hcharacter : checkCharacter (shardOf start first last).context 0
      (twoSamples start first last) ⟨0, 2, 1⟩ = .ok ()) :
    (sealed (shardOf start first last)).Accepted rosterOfThree [⟨0, 2, 1⟩] := by
  have hgrid := checkContext_ok.mp hcontext
  have hcharacters := (checkCharacter_ok hgrid).mp hcharacter
  have hzero : (0 : Int) ≤ MAX_EVENT_COUNT := by decide
  have hone : (1 : Int) ≤ MAX_EVENT_COUNT := by decide
  have hword : ∀ n : Int, 0 ≤ n → n ≤ 100 → Json.fits (.int n) = true := fun n hlow hhigh =>
    fits_word hlow (by simp only [MAX_EVENT_COUNT]; omega)
  have hfits : Json.fits (shardOf start first last).body = true := by
    obtain ⟨mask, hvalid, _⟩ := hcharacters.valid
    have hsamples : (mask.length : Int) = 2 := hvalid.sampleCount.symm
    have hne : mask ≠ [] := List.ne_nil_of_length_pos (by omega)
    obtain ⟨hlow, hhigh⟩ := hvalid.inGrid hne
    have hstart : 0 ≤ start := hlow
    have hstop : start + 10 ≤ MAX_EVENT_COUNT := by
      have hafter : after start mask.length ≤ MAX_EVENT_COUNT := hhigh
      simp only [after, SOURCE_SAMPLE_NUMERATOR] at hafter
      omega
    refine fits_body.mpr ⟨hword 2 (by decide) (by decide), fits_context.mpr
      ⟨hword 3 (by decide) (by decide), hword 1 (by decide) (by decide),
        hword 2 (by decide) (by decide), fits_word hstart (show start ≤ MAX_EVENT_COUNT by omega),
        fits_word (show 0 ≤ start + 10 by omega) hstop,
        hword 64 (by decide) (by decide), hword 5 (by decide) (by decide)⟩,
      fun state hmem => ?_, hword 1 (by decide) (by decide), hword 1 (by decide) (by decide),
      hword 0 (by decide) (by decide), hword 0 (by decide) (by decide),
      hword 0 (by decide) (by decide), hword 0 (by decide) (by decide)⟩
    rw [List.mem_singleton.mp hmem]
    exact hvalid.fits_toJson (hword 2 (by decide) (by decide)) (hword 0 (by decide) (by decide))
  obtain ⟨s, hseal⟩ := sealState_isOk.mpr hfits
  rw [sealed_eq hseal]
  obtain ⟨hash, hhash, rfl⟩ := sealState_ok.mp hseal
  exact
    { labelled := ⟨rfl, rfl, rfl, rfl, rfl, rfl, rfl, rfl, rfl⟩
      hash := (bodySha256_seal _ hash).trans hhash
      context := hgrid
      roster := rfl
      stateCount := rfl
      identityCount := rfl
      characters := by
        intro i state identity hstate hidentity
        cases i with
        | zero =>
            rw [← Option.some.inj hstate, ← Option.some.inj hidentity]
            exact hcharacters
        | succ i => cases hstate
      totals := ⟨le_refl 0, le_refl 0, rfl, rfl, hzero, rfl, hzero⟩
      committed := committed_of_eq rfl rfl (le_refl 1) hone ROLLING_MODULUS_pos }

/-- Plus, then minus. -/
def shardA : CompactState := sealed (shardOf 0 1 (-1))

/-- Minus, then plus: without a sign change at either cut, shard A hides it. -/
def shardB : CompactState := sealed (shardOf 10 (-1) 1)

/-- Twice minus. -/
def shardC : CompactState := sealed (shardOf 20 (-1) (-1))

theorem accepted_shardA : shardA.Accepted rosterOfThree [⟨0, 2, 1⟩] :=
  accepted_shardOf rfl rfl

theorem accepted_shardB : shardB.Accepted rosterOfThree [⟨0, 2, 1⟩] :=
  accepted_shardOf rfl rfl

theorem accepted_shardC : shardC.Accepted rosterOfThree [⟨0, 2, 1⟩] :=
  accepted_shardOf rfl rfl

/-- What a sealed shard says, but for its hash. -/
theorem sealed_shardOf (start first last : Int) :
    ∃ hash, sealed (shardOf start first last)
      = { shardOf start first last with stateSha256 := hash } := by
  cases hseal : (shardOf start first last).sealState with
  | ok s =>
      obtain ⟨hash, _, hs⟩ := sealState_ok.mp hseal
      exact ⟨hash, (sealed_eq hseal).trans hs⟩
  | error fault =>
      have hsame : sealed (shardOf start first last) = shardOf start first last := by
        have hnone : (shardOf start first last).sealState.toOption = none := by rw [hseal]; rfl
        rw [sealed, hnone]
        rfl
      exact ⟨[], hsame⟩

theorem triples_shards : triples shardA shardB shardC
    = [(twoSamples 0 1 (-1), twoSamples 10 (-1) 1, twoSamples 20 (-1) (-1))] := by
  obtain ⟨_, ha⟩ := sealed_shardOf 0 1 (-1)
  obtain ⟨_, hb⟩ := sealed_shardOf 10 (-1) 1
  obtain ⟨_, hc⟩ := sealed_shardOf 20 (-1) (-1)
  rw [shardA, shardB, shardC, ha, hb, hc]
  rfl

theorem adjacent_shards : Adjacent shardA.context shardB.context
    ∧ Adjacent shardB.context shardC.context := by
  obtain ⟨_, ha⟩ := sealed_shardOf 0 1 (-1)
  obtain ⟨_, hb⟩ := sealed_shardOf 10 (-1) 1
  obtain ⟨_, hc⟩ := sealed_shardOf 20 (-1) (-1)
  rw [shardA, shardB, shardC, ha, hb, hc]
  exact ⟨⟨rfl, rfl, rfl, rfl, rfl⟩, ⟨rfl, rfl, rfl, rfl, rfl⟩⟩

theorem totalsFit_shards : TotalsFit shardA shardB shardC := by
  have hcuts : cutTotal shardA shardB shardC = 1 := by
    rw [cutTotal, triples_shards]
    rfl
  obtain ⟨_, ha⟩ := sealed_shardOf 0 1 (-1)
  obtain ⟨_, hb⟩ := sealed_shardOf 10 (-1) 1
  obtain ⟨_, hc⟩ := sealed_shardOf 20 (-1) (-1)
  have hleaves : shardA.leafEventSummaryCount + shardB.leafEventSummaryCount
      + shardC.leafEventSummaryCount = 3 := by
    rw [shardA, shardB, shardC, ha, hb, hc]
    rfl
  have hsigns : shardA.signChangeLowerBound + shardB.signChangeLowerBound
      + shardC.signChangeLowerBound = 0 := by
    rw [shardA, shardB, shardC, ha, hb, hc]
    rfl
  have hambiguities : shardA.ambiguitySampleCount + shardB.ambiguitySampleCount
      + shardC.ambiguitySampleCount = 0 := by
    rw [shardA, shardB, shardC, ha, hb, hc]
    rfl
  have hframes : shardA.context.frameCount + shardB.context.frameCount
      + shardC.context.frameCount = 6 := by
    rw [shardA, shardB, shardC, ha, hb, hc]
    rfl
  refine ⟨hleaves ▸ by decide, ?_, hambiguities ▸ by decide, ?_⟩
  · rw [hsigns, hcuts]
    decide
  · rw [hframes]
    exact fits_word (by decide) (by decide)

/-- Grouped to the left, the three shards make a state; grouped to the right, shard B meets
the sign change to shard C by itself and is refused. -/
theorem combine_shards_not_assoc : shardA.validate rosterOfThree = .ok shardA.summary
    ∧ shardB.validate rosterOfThree = .ok shardB.summary
    ∧ shardC.validate rosterOfThree = .ok shardC.summary
    ∧ adjacentContexts shardA.context shardB.context = true
    ∧ adjacentContexts shardB.context shardC.context = true
    ∧ (∃ r, combineLeft rosterOfThree shardA shardB shardC = .ok r)
    ∧ ∀ r, combineRight rosterOfThree shardA shardB shardC ≠ .ok r := by
  obtain ⟨hab, hbc⟩ := adjacent_shards
  have hleft : ∀ t ∈ triples shardA shardB shardC, AcceptsLeft t.1 t.2.1 t.2.2 := by
    rw [triples_shards]
    decide
  have hright : ¬ ∀ t ∈ triples shardA shardB shardC, AcceptsRight t.1 t.2.1 t.2.2 := by
    rw [triples_shards]
    decide
  obtain ⟨r, hr⟩ := exists_sealed accepted_shardA accepted_shardB accepted_shardC hab hbc
    totalsFit_shards (.inl hleft)
  exact ⟨accepted_shardA.validate, accepted_shardB.validate, accepted_shardC.validate,
    adjacentContexts_iff.mpr hab, adjacentContexts_iff.mpr hbc,
    ⟨r, (combineLeft_ok accepted_shardA accepted_shardB accepted_shardC hab hbc).mpr
      ⟨hleft, totalsFit_shards, hr⟩⟩,
    fun r hr => hright
      ((combineRight_ok accepted_shardA accepted_shardB accepted_shardC hab hbc).mp hr).1⟩

theorem combine_assoc_iff_shards :
    ((∀ r, combineLeft rosterOfThree shardA shardB shardC = .ok r
          ↔ combineRight rosterOfThree shardA shardB shardC = .ok r)
        ∧ ∀ r xs ys zs, combineLeft rosterOfThree shardA shardB shardC = .ok r
            ∨ combineRight rosterOfThree shardA shardB shardC = .ok r →
          LeafSequence shardA xs → LeafSequence shardB ys → LeafSequence shardC zs →
          LeafSequence r (xs ++ ys ++ zs))
      ↔ (TotalsFit shardA shardB shardC →
        ((∀ t ∈ triples shardA shardB shardC, AcceptsLeft t.1 t.2.1 t.2.2)
          ↔ ∀ t ∈ triples shardA shardB shardC, AcceptsRight t.1 t.2.1 t.2.2)) :=
  combine_assoc_iff rosterOfThree shardA shardB shardC ⟨_, accepted_shardA.validate⟩
    ⟨_, accepted_shardB.validate⟩ ⟨_, accepted_shardC.validate⟩
    (adjacentContexts_iff.mpr adjacent_shards.1) (adjacentContexts_iff.mpr adjacent_shards.2)

end AttestedCompute.Dirichlet
