import AttestedCompute.Affine.Transition

/-!
# The exclusive scan is sequential execution

A transition of dimension `n` denotes a guarded translation of `Fin n → ℤ`. Under
that reading `apply` is one step, `composeAffineGuards` is composition, and the
loop of the scan keeps two accounts of the same run: the states reached one after
another, and the composite of the transitions so far. The scan lemma says that the
two accounts cannot come apart, which is why the two checks after the loop never
fire.
-/

namespace AttestedCompute.Affine

open Fallible (refuseIf refuseIf_ok bind_ok pure_ok)
open GuardedTranslation (comp Steps Runs)

/-! ## Vectors as functions -/

/-- The coordinates of a vector. -/
def coordinates (n : Nat) (v : List Int) : Fin n → ℤ := fun i => v.getD i 0

theorem coordinates_injective {n : Nat} {u v : List Int} (hu : u.length = n) (hv : v.length = n)
    (h : coordinates n u = coordinates n v) : u = v := by
  refine List.ext_getElem (hu.trans hv.symm) fun i hi hi' => ?_
  have hcoord := congrFun h ⟨i, hu ▸ hi⟩
  simpa [coordinates, List.getD_eq_getElem?_getD, hi, hi'] using hcoord

theorem coordinates_zipWith (f : Int → Int → Int) {n : Nat} {u v : List Int} (hu : u.length = n)
    (hv : v.length = n) (i : Fin n) :
    coordinates n (List.zipWith f u v) i = f (coordinates n u i) (coordinates n v i) := by
  have hiu : (i : Nat) < u.length := hu ▸ i.isLt
  have hiv : (i : Nat) < v.length := hv ▸ i.isLt
  simp [coordinates, List.getD_eq_getElem?_getD, hiu, hiv]

/-- A zipped predicate holds everywhere exactly when it holds in every coordinate. -/
theorem forall_mem_zip {n : Nat} {u v : List Int} (hu : u.length = n) (hv : v.length = n)
    (P : Int × Int → Prop) :
    (∀ p ∈ u.zip v, P p) ↔ ∀ i : Fin n, P (coordinates n u i, coordinates n v i) := by
  have hget : ∀ i : Fin n, (u.zip v)[(i : Nat)]? = some (coordinates n u i, coordinates n v i) := by
    intro i
    have hiu : (i : Nat) < u.length := hu ▸ i.isLt
    have hiv : (i : Nat) < v.length := hv ▸ i.isLt
    simp [coordinates, List.getD_eq_getElem?_getD, hiu, hiv]
  constructor
  · intro h i
    exact h _ (List.mem_of_getElem? (hget i))
  · intro h p hp
    obtain ⟨i, hi⟩ := List.mem_iff_getElem?.mp hp
    have hlt : i < (u.zip v).length := (List.getElem?_eq_some_iff.mp hi).1
    rw [List.length_zip, hu, hv, Nat.min_self] at hlt
    have := hget ⟨i, hlt⟩
    rw [hi] at this
    injection this with this
    exact this ▸ h ⟨i, hlt⟩

/-! ## What a transition denotes -/

/-- The guarded translation of a transition of dimension `n`. -/
def AffineGuardTransition.denote (n : Nat) (t : AffineGuardTransition) :
    GuardedTranslation (Fin n → ℤ) where
  delta := coordinates n t.delta
  lower := coordinates n t.lowerGuard
  upper := coordinates n t.upperGuard

theorem requireVector_ok {name : String} {v w : List Int} :
    requireVector name v = .ok w ↔ v ≠ [] ∧ v = w := by
  unfold requireVector
  split
  · rename_i h; simp [h]
  · rename_i h; simp [h]

theorem AffineGuardTransition.dimension_pos (t : AffineGuardTransition) : 0 < t.dimension :=
  List.length_pos_of_ne_nil t.nonempty

theorem ne_nil_of_dimension {t : AffineGuardTransition} {state : List Int}
    (h : state.length = t.dimension) : state ≠ [] :=
  List.ne_nil_of_length_pos (h ▸ t.dimension_pos)

theorem withinGuards_iff {n : Nat} {t : AffineGuardTransition} {state : List Int}
    (ht : t.dimension = n) (hs : state.length = n) :
    t.withinGuards state = true
      ↔ coordinates n state ∈ Set.Icc (t.denote n).lower (t.denote n).upper := by
  have hlower : t.lowerGuard.length = n := t.lower_length.trans ht
  have hupper : t.upperGuard.length = n := t.upper_length.trans ht
  have hcoord : ∀ i : Fin n, (state.zip (t.lowerGuard.zip t.upperGuard))[(i : Nat)]?
      = some (coordinates n state i, coordinates n t.lowerGuard i, coordinates n t.upperGuard i) := by
    intro i
    have his : (i : Nat) < state.length := hs ▸ i.isLt
    have hil : (i : Nat) < t.lowerGuard.length := hlower ▸ i.isLt
    have hiu : (i : Nat) < t.upperGuard.length := hupper ▸ i.isLt
    simp [coordinates, List.getD_eq_getElem?_getD, his, hil, hiu]
  rw [AffineGuardTransition.withinGuards, List.all_eq_true, Set.mem_Icc, Pi.le_def, Pi.le_def]
  constructor
  · intro h
    have hpoint := fun i => h _ (List.mem_of_getElem? (hcoord i))
    simp only [Bool.and_eq_true, decide_eq_true_eq] at hpoint
    exact ⟨fun i => (hpoint i).1, fun i => (hpoint i).2⟩
  · rintro ⟨hlo, hhi⟩ p hp
    obtain ⟨i, hi⟩ := List.mem_iff_getElem?.mp hp
    have hlt : i < n := by
      have := (List.getElem?_eq_some_iff.mp hi).1
      rw [List.length_zip, List.length_zip, hs, hlower, hupper] at this
      omega
    have hp' := hcoord ⟨i, hlt⟩
    rw [hi] at hp'
    injection hp' with hp'
    rw [hp']
    simp only [Bool.and_eq_true, decide_eq_true_eq]
    exact ⟨hlo ⟨i, hlt⟩, hhi ⟨i, hlt⟩⟩

theorem accepts_ok {t : AffineGuardTransition} {state : List Int} {b : Bool} :
    t.accepts state = .ok b ↔ state.length = t.dimension ∧ t.withinGuards state = b := by
  simp only [AffineGuardTransition.accepts, bind_ok, requireVector_ok, refuseIf_ok, pure_ok, ne_eq,
    not_not]
  constructor
  · rintro ⟨_, ⟨-, rfl⟩, _, hlen, hb⟩
    exact ⟨hlen, hb⟩
  · rintro ⟨hlen, hb⟩
    exact ⟨state, ⟨ne_nil_of_dimension hlen, rfl⟩, (), hlen, hb⟩

theorem apply_ok {t : AffineGuardTransition} {state next : List Int} :
    t.apply state = .ok next ↔ state.length = t.dimension ∧ t.withinGuards state = true
      ∧ List.zipWith (· + ·) state t.delta = next := by
  simp only [AffineGuardTransition.apply, bind_ok, requireVector_ok, refuseIf_ok, pure_ok, ne_eq,
    not_not, accepts_ok, Bool.not_eq_false]
  constructor
  · rintro ⟨_, ⟨-, rfl⟩, _, hlen, _, ⟨-, rfl⟩, _, hin, hnext⟩
    exact ⟨hlen, hin, hnext⟩
  · rintro ⟨hlen, hin, hnext⟩
    exact ⟨state, ⟨ne_nil_of_dimension hlen, rfl⟩, (), hlen, _, ⟨hlen, rfl⟩, (), hin, hnext⟩

/-- **`apply` is one step of what the transition denotes.** -/
theorem apply_ok_iff_steps {n : Nat} {t : AffineGuardTransition} {state next : List Int}
    (ht : t.dimension = n) (hs : state.length = n) :
    t.apply state = .ok next
      ↔ next.length = n ∧ (t.denote n).Steps (coordinates n state) (coordinates n next) := by
  have hdelta : t.delta.length = n := ht
  have hlen : (List.zipWith (· + ·) state t.delta).length = n := by
    rw [List.length_zipWith, hs, hdelta, Nat.min_self]
  have hsum : coordinates n (List.zipWith (· + ·) state t.delta)
      = coordinates n state + (t.denote n).delta :=
    funext fun i => coordinates_zipWith _ hs hdelta i
  rw [apply_ok, withinGuards_iff ht hs, Steps]
  constructor
  · rintro ⟨-, hin, rfl⟩
    exact ⟨hlen, hin, hsum⟩
  · rintro ⟨hnext, hin, hval⟩
    exact ⟨hs.trans ht.symm, hin, coordinates_injective hlen hnext (hsum.trans hval.symm)⟩

/-! ## Composition -/

theorem make_ok {delta lower upper : List Int} {t : AffineGuardTransition}
    (h : AffineGuardTransition.make delta lower upper = .ok t) :
    t.delta = delta ∧ t.lowerGuard = lower ∧ t.upperGuard = upper := by
  unfold AffineGuardTransition.make at h
  split at h
  · exact absurd h (by simp)
  split at h
  · exact absurd h (by simp)
  split at h
  · exact absurd h (by simp)
  split at h
  · split at h
    · exact absurd h (by simp)
    · injection h with h
      rw [← h]
      exact ⟨rfl, rfl, rfl⟩
  · exact absurd h (by simp)

/-- Vectors of one positive length with a nonempty guard interval make a transition. -/
theorem exists_make {n : Nat} {delta lower upper : List Int} (hn : 0 < n) (hd : delta.length = n)
    (hl : lower.length = n) (hu : upper.length = n)
    (hguards : coordinates n lower ≤ coordinates n upper) :
    ∃ t, AffineGuardTransition.make delta lower upper = .ok t := by
  have hne : ∀ v : List Int, v.length = n → v ≠ [] := by
    rintro v hv rfl
    exact absurd hv (by simp; omega)
  have hnone : firstEmptyGuard lower upper = none := by
    rw [firstEmptyGuard_eq_none, forall_mem_zip hl hu]
    exact fun i => hguards i
  unfold AffineGuardTransition.make
  rw [dif_neg (hne _ hd), if_neg (hne _ hl), if_neg (hne _ hu),
    dif_pos ⟨hl.trans hd.symm, hu.trans hd.symm⟩]
  split
  · rename_i hsome; rw [hnone] at hsome; exact absurd hsome (by simp)
  · exact ⟨_, rfl⟩

section

variable {n : Nat} {a b : AffineGuardTransition}

theorem length_composed (ha : a.dimension = n) (hb : b.dimension = n) :
    (composedDelta a b).length = n ∧ (composedLower a b).length = n
      ∧ (composedUpper a b).length = n := by
  have hda : a.delta.length = n := ha
  have hdb : b.delta.length = n := hb
  have hla : a.lowerGuard.length = n := a.lower_length.trans ha
  have hlb : b.lowerGuard.length = n := b.lower_length.trans hb
  have hua : a.upperGuard.length = n := a.upper_length.trans ha
  have hub : b.upperGuard.length = n := b.upper_length.trans hb
  exact ⟨by simp [composedDelta, hda, hdb], by simp [composedLower, hla, hlb, hda],
    by simp [composedUpper, hua, hub, hda]⟩

/-- The three vectors the composition builds, in coordinates. -/
theorem coordinates_composed (ha : a.dimension = n) (hb : b.dimension = n) :
    coordinates n (composedDelta a b) = ((a.denote n).comp (b.denote n)).delta
      ∧ coordinates n (composedLower a b) = ((a.denote n).comp (b.denote n)).lower
      ∧ coordinates n (composedUpper a b) = ((a.denote n).comp (b.denote n)).upper := by
  have hda : a.delta.length = n := ha
  have hdb : b.delta.length = n := hb
  have hla : a.lowerGuard.length = n := a.lower_length.trans ha
  have hlb : b.lowerGuard.length = n := b.lower_length.trans hb
  have hua : a.upperGuard.length = n := a.upper_length.trans ha
  have hub : b.upperGuard.length = n := b.upper_length.trans hb
  have hpull : ∀ v : List Int, v.length = n →
      (List.zipWith (fun x y : Int => x - y) v a.delta).length = n := by
    intro v hv
    rw [List.length_zipWith, hv, hda, Nat.min_self]
  refine ⟨funext fun i => ?_, funext fun i => ?_, funext fun i => ?_⟩
  · exact coordinates_zipWith _ hda hdb i
  · rw [composedLower, coordinates_zipWith _ hla (hpull _ hlb), coordinates_zipWith _ hlb hda]
    rfl
  · rw [composedUpper, coordinates_zipWith _ hua (hpull _ hub), coordinates_zipWith _ hub hda]
    rfl

/-- **A composition that succeeds denotes the composite.** -/
theorem compose_ok {c : AffineGuardTransition} (ha : a.dimension = n)
    (h : composeAffineGuards a b = .ok c) :
    b.dimension = n ∧ c.dimension = n ∧ c.denote n = (a.denote n).comp (b.denote n) := by
  unfold composeAffineGuards at h
  split at h
  · exact absurd h (by simp)
  rename_i hdim
  have hb : b.dimension = n := (not_not.mp hdim).symm.trans ha
  split at h
  · rename_i t hmake
    injection h with h
    subst h
    obtain ⟨hdelta, hlower, hupper⟩ := make_ok hmake
    obtain ⟨hcd, hcl, hcu⟩ := coordinates_composed ha hb
    refine ⟨hb, ?_, ?_⟩
    · rw [AffineGuardTransition.dimension, hdelta, (length_composed ha hb).1]
    · rw [AffineGuardTransition.denote, hdelta, hlower, hupper, hcd, hcl, hcu]
  · exact absurd h (by simp)

/-- A composition succeeds as soon as one state is admissible. -/
theorem exists_compose {x : Fin n → ℤ} (ha : a.dimension = n) (hb : b.dimension = n)
    (hx : x ∈ Set.Icc ((a.denote n).comp (b.denote n)).lower
      ((a.denote n).comp (b.denote n)).upper) :
    ∃ c, composeAffineGuards a b = .ok c := by
  obtain ⟨-, hcl, hcu⟩ := coordinates_composed ha hb
  obtain ⟨hld, hll, hlu⟩ := length_composed ha hb
  obtain ⟨c, hc⟩ := exists_make (ha ▸ a.dimension_pos) hld hll hlu
    (by rw [hcl, hcu]; exact hx.1.trans hx.2)
  refine ⟨c, ?_⟩
  rw [composeAffineGuards, if_neg (not_not.mpr (ha.trans hb.symm)), hc]

end

/-! ## The two accounts of a run -/

/-- Every transition has dimension `n`. -/
def AllDimension (n : Nat) (ts : List AffineGuardTransition) : Prop := ∀ t ∈ ts, t.dimension = n

/-- What a list of transitions denotes, step by step. -/
def denoteRun (n : Nat) (ts : List AffineGuardTransition) : List (GuardedTranslation (Fin n → ℤ)) :=
  ts.map (AffineGuardTransition.denote n)

/-- Applying a list of transitions is a run of what they denote. -/
theorem foldlM_apply_ok {n : Nat} {ts : List AffineGuardTransition} {state final : List Int}
    (hs : state.length = n) :
    ts.foldlM (fun state transition => transition.apply state) state = .ok final
      ↔ AllDimension n ts ∧ final.length = n
        ∧ Runs (denoteRun n ts) (coordinates n state) (coordinates n final) := by
  induction ts generalizing state with
  | nil =>
      rw [List.foldlM_nil, pure_ok]
      constructor
      · rintro rfl
        exact ⟨by simp [AllDimension], hs, rfl⟩
      · rintro ⟨-, hfinal, hrun⟩
        exact coordinates_injective hs hfinal hrun.symm
  | cons t ts ih =>
      rw [List.foldlM_cons, bind_ok]
      constructor
      · rintro ⟨next, happly, hrest⟩
        have ht : t.dimension = n := (apply_ok.mp happly).1.symm.trans hs
        obtain ⟨hnext, hstep⟩ := (apply_ok_iff_steps ht hs).mp happly
        obtain ⟨hdims, hfinal, hrun⟩ := (ih hnext).mp hrest
        exact ⟨List.forall_mem_cons.mpr ⟨ht, hdims⟩, hfinal, _, hstep, hrun⟩
      · rintro ⟨hdims, hfinal, middle, hstep, hrun⟩
        obtain ⟨ht, hdims⟩ := List.forall_mem_cons.mp hdims
        have hnext : (List.zipWith (· + ·) state t.delta).length = n := by
          rw [List.length_zipWith, hs, show t.delta.length = n from ht, Nat.min_self]
        have hmiddle : coordinates n (List.zipWith (· + ·) state t.delta) = middle := by
          rw [hstep.2]
          exact funext fun i => coordinates_zipWith _ hs ht i
        refine ⟨List.zipWith (· + ·) state t.delta, ?_, (ih hnext).mpr ⟨hdims, hfinal, ?_⟩⟩
        · rw [apply_ok_iff_steps ht hs]
          exact ⟨hnext, by rw [hmiddle]; exact hstep⟩
        · rw [hmiddle]; exact hrun

/-- `sequentialRun` without its check of the root. -/
def applyAll (state : List Int) (ts : List AffineGuardTransition) : Result (List Int) :=
  ts.foldlM (fun state transition => transition.apply state) state

/-- The aggregate is the composite of everything scanned so far. -/
def AggregateOf (n : Nat) (ts : List AffineGuardTransition) : Option AffineGuardTransition → Prop
  | none => ts = []
  | some aggregate => ∃ t rest, ts = t :: rest ∧ aggregate.dimension = n
      ∧ aggregate.denote n = (denoteRun n rest).foldl comp (t.denote n)

/-- What the loop knows after scanning `done`. -/
structure ScanInv (root : List Int) (done : List AffineGuardTransition) (scan : ScanState) :
    Prop where
  /-- The current state is where the run of `done` leads. -/
  ran : applyAll root done = .ok scan.current
  /-- One incoming state has been recorded for each transition, -/
  length : scan.incoming.length = done.length
  /-- namely the state after the transitions before it. -/
  incoming : ∀ i state, scan.incoming[i]? = some state → applyAll root (done.take i) = .ok state
  aggregate : AggregateOf root.length done scan.aggregate

theorem scanInv_init (root : List Int) :
    ScanInv root [] { incoming := [], current := root, aggregate := none } :=
  ⟨rfl, rfl, by simp, rfl⟩

theorem applyAll_append {state : List Int} {ts us : List AffineGuardTransition}
    {final : List Int} :
    applyAll state (ts ++ us) = .ok final
      ↔ ∃ middle, applyAll state ts = .ok middle ∧ applyAll middle us = .ok final := by
  rw [applyAll, List.foldlM_append, bind_ok]
  rfl

/-- An aggregate takes exactly the states its run takes, and to the same place. -/
theorem aggregate_apply {n : Nat} {ts : List AffineGuardTransition} {aggregate}
    (hdims : AllDimension n ts) (hagg : AggregateOf n ts (some aggregate))
    {state final : List Int} :
    aggregate.apply state = .ok final ↔ applyAll state ts = .ok final := by
  obtain ⟨t, rest, rfl, hdim, hdenote⟩ := hagg
  have hlen : ∀ {s : List Int}, applyAll s (t :: rest) = .ok final → s.length = n := by
    intro s h
    rw [applyAll, List.foldlM_cons, bind_ok] at h
    obtain ⟨next, hnext, -⟩ := h
    exact (apply_ok.mp hnext).1.trans (hdims t (by simp))
  constructor
  · intro h
    have hs : state.length = n := (apply_ok.mp h).1.trans hdim
    rw [apply_ok_iff_steps hdim hs, hdenote, GuardedTranslation.steps_foldl_comp] at h
    exact (foldlM_apply_ok hs).mpr ⟨hdims, h.1, h.2⟩
  · intro h
    have hs := hlen h
    obtain ⟨-, hfinal, hrun⟩ := (foldlM_apply_ok hs).mp h
    rw [apply_ok_iff_steps hdim hs, hdenote, GuardedTranslation.steps_foldl_comp]
    exact ⟨hfinal, hrun⟩

theorem aggregateOf_snoc {n : Nat} {ts : List AffineGuardTransition} {t aggregate}
    {previous : Option AffineGuardTransition} (ht : t.dimension = n)
    (hprev : AggregateOf n ts previous) (h : extendAggregate previous t = .ok aggregate) :
    AggregateOf n (ts ++ [t]) (some aggregate) := by
  cases previous with
  | none =>
      obtain rfl : ts = [] := hprev
      injection h with h
      subst h
      exact ⟨t, [], rfl, ht, rfl⟩
  | some previous =>
      obtain ⟨first, rest, rfl, hdim, hdenote⟩ := hprev
      obtain ⟨-, hcdim, hcomp⟩ := compose_ok hdim h
      refine ⟨first, rest ++ [t], rfl, hcdim, ?_⟩
      rw [hcomp, hdenote, denoteRun, denoteRun, List.map_append, List.foldl_append]
      rfl

/-- Extending the aggregate cannot fail while the run goes on. -/
theorem exists_extendAggregate {root next : List Int} {ts : List AffineGuardTransition} {t}
    {previous : Option AffineGuardTransition} (hdims : AllDimension root.length ts)
    (ht : t.dimension = root.length) (hprev : AggregateOf root.length ts previous)
    (hrun : applyAll root (ts ++ [t]) = .ok next) :
    ∃ aggregate, extendAggregate previous t = .ok aggregate := by
  cases previous with
  | none => exact ⟨t, rfl⟩
  | some previous =>
      obtain ⟨middle, hmiddle, hlast⟩ := applyAll_append.mp hrun
      have hdim : previous.dimension = root.length := hprev.choose_spec.choose_spec.2.1
      have happly := (aggregate_apply hdims hprev).mpr hmiddle
      obtain ⟨hmlen, hstep⟩ := (apply_ok_iff_steps hdim rfl).mp happly
      obtain ⟨-, -, hrun'⟩ := (foldlM_apply_ok hmlen).mp hlast
      obtain ⟨_, hstep', -⟩ := hrun'
      exact exists_compose hdim ht (GuardedTranslation.mem_comp.mpr ⟨hstep.1, hstep.2 ▸ hstep'.1⟩)

/-- How a failed iteration reports the transition it could not apply. -/
def FailsAt (index : Nat) (e : AffineGuardCertificateError) : Prop :=
  e = .scanDimension index ∨ e = .scanGuard index

/-- **One iteration** extends both accounts, or fails because the run cannot go on. -/
theorem scanStep_cases {root : List Int} {done : List AffineGuardTransition} {scan : ScanState}
    (hinv : ScanInv root done scan) (t : AffineGuardTransition) (index : Nat) :
    (∃ scan', scanStep root scan (t, index) = .ok scan' ∧ ScanInv root (done ++ [t]) scan')
      ∨ ((∃ e, scanStep root scan (t, index) = .error e ∧ FailsAt index e)
        ∧ ∀ final, applyAll root (done ++ [t]) ≠ .ok final) := by
  obtain ⟨hdims, hcurrent, -⟩ := (foldlM_apply_ok rfl).mp hinv.ran
  have hsnoc : ∀ {final}, applyAll root (done ++ [t]) = .ok final
      ↔ t.apply scan.current = .ok final := by
    intro final
    rw [applyAll_append]
    constructor
    · rintro ⟨middle, hmiddle, hlast⟩
      rw [hinv.ran] at hmiddle
      injection hmiddle with hmiddle
      rw [applyAll, List.foldlM_cons, bind_ok] at hlast
      obtain ⟨next, hnext, hnil⟩ := hlast
      rw [List.foldlM_nil, pure_ok] at hnil
      rw [hmiddle, ← hnil]
      exact hnext
    · intro h
      refine ⟨scan.current, hinv.ran, ?_⟩
      rw [applyAll, List.foldlM_cons, h]
      rfl
  by_cases ht : t.dimension = root.length
  · have hlen : scan.current.length = t.dimension := hcurrent.trans ht.symm
    have haccepts : t.accepts scan.current = .ok (t.withinGuards scan.current) :=
      accepts_ok.mpr ⟨hlen, rfl⟩
    cases hin : t.withinGuards scan.current with
    | true =>
        left
        obtain ⟨next, hnext⟩ : ∃ next, t.apply scan.current = .ok next :=
          ⟨_, apply_ok.mpr ⟨hlen, hin, rfl⟩⟩
        have hrun := hsnoc.mpr hnext
        obtain ⟨aggregate, hagg⟩ := exists_extendAggregate hdims ht hinv.aggregate hrun
        refine ⟨{ incoming := scan.incoming ++ [scan.current], current := next
                  aggregate := some aggregate }, ?_, ?_⟩
        · simp only [scanStep, bind_ok, refuseIf_ok, pure_ok, haccepts, hin, hnext, hagg]
          exact ⟨(), not_not.mpr ht, true, rfl, (), by simp, next, rfl, aggregate, rfl, rfl⟩
        · refine ⟨hrun, ?_, ?_, aggregateOf_snoc ht hinv.aggregate hagg⟩
          · rw [List.length_append, hinv.length, List.length_append]
            rfl
          · intro i state hi
            rcases Nat.lt_trichotomy i scan.incoming.length with hlt | heq | hgt
            · rw [List.getElem?_append_left hlt] at hi
              rw [List.take_append_of_le_length (by rw [← hinv.length]; omega)]
              exact hinv.incoming i state hi
            · subst heq
              rw [List.getElem?_concat_length] at hi
              injection hi with hi
              rw [← hi, List.take_left' hinv.length.symm]
              exact hinv.ran
            · rw [List.getElem?_eq_none (by simp; omega)] at hi
              exact absurd hi (by simp)
    | false =>
        right
        refine ⟨⟨.scanGuard index, ?_, .inr rfl⟩, ?_⟩
        · rw [scanStep, refuseIf, if_neg (not_not.mpr ht), haccepts, hin]
          rfl
        · intro final hfinal
          have hin' := (apply_ok.mp (hsnoc.mp hfinal)).2.1
          rw [hin] at hin'
          exact absurd hin' (by simp)
  · right
    refine ⟨⟨.scanDimension index, ?_, .inl rfl⟩, ?_⟩
    · rw [scanStep, refuseIf, if_pos ht]
      rfl
    · intro final hfinal
      have hlen := (apply_ok.mp (hsnoc.mp hfinal)).1
      exact ht (hlen.symm.trans hcurrent)

/-- **The whole loop.** It succeeds with both accounts in step, or it stops at the first
transition the run cannot take. -/
theorem scanLoop_cases {root : List Int} {done : List AffineGuardTransition} {scan : ScanState}
    (hinv : ScanInv root done scan) (rest : List AffineGuardTransition) (start : Nat) :
    (∃ scan', (rest.zipIdx start).foldlM (scanStep root) scan = .ok scan'
        ∧ ScanInv root (done ++ rest) scan')
      ∨ ((∃ e index, (rest.zipIdx start).foldlM (scanStep root) scan = .error e ∧ FailsAt index e)
        ∧ ∀ final, applyAll root (done ++ rest) ≠ .ok final) := by
  induction rest generalizing done scan start with
  | nil => exact .inl ⟨scan, rfl, by rw [List.append_nil]; exact hinv⟩
  | cons t rest ih =>
      rw [List.zipIdx_cons, List.foldlM_cons, List.append_cons]
      rcases scanStep_cases hinv t start with ⟨scan', hstep, hinv'⟩ | ⟨⟨e, hstep, hfails⟩, hstop⟩
      · rw [hstep]
        exact ih hinv' (start + 1)
      · right
        rw [hstep]
        refine ⟨⟨e, start, rfl, hfails⟩, fun final hfinal => ?_⟩
        obtain ⟨middle, hmiddle, -⟩ := applyAll_append.mp hfinal
        exact hstop middle hmiddle

/-- After the loop the aggregate leads from the root to the current state. -/
theorem checkAggregate_ok {root : List Int} {ts : List AffineGuardTransition} {scan : ScanState}
    (hinv : ScanInv root ts scan) : checkAggregate root scan = .ok () := by
  obtain ⟨hdims, -⟩ := (foldlM_apply_ok rfl).mp hinv.ran
  have hagg := hinv.aggregate
  unfold checkAggregate
  cases haggregate : scan.aggregate with
  | none => rfl
  | some aggregate =>
      rw [haggregate] at hagg
      have happly := (aggregate_apply hdims hagg).mpr hinv.ran
      obtain ⟨hlen, hin, -⟩ := apply_ok.mp happly
      have haccepts := accepts_ok.mpr ⟨hlen, hin⟩
      simp only [bind_ok, refuseIf_ok, haccepts, happly]
      exact ⟨true, rfl, (), by simp, scan.current, rfl, by simp⟩

theorem sequentialRun_eq {root : List Int} (h : root ≠ []) (ts : List AffineGuardTransition) :
    sequentialRun root ts = applyAll root ts := by
  rw [sequentialRun, requireVector, if_neg h]
  rfl

/-- The scan's own failures are not those of the checks after the loop. -/
theorem scanError_ne {name : String} {e : AffineGuardCertificateError}
    (h : e = .emptyVector name ∨ ∃ index, FailsAt index e) :
    e ≠ .aggregateRejects ∧ e ≠ .aggregateDisagrees := by
  rcases h with rfl | ⟨index, rfl | rfl⟩ <;> exact ⟨nofun, nofun⟩

/-- Every outcome of the scan. -/
theorem exclusiveScan_cases (root : List Int) (ts : List AffineGuardTransition) :
    (root ≠ [] ∧ ∃ scan, ScanInv root ts scan
        ∧ exclusiveScanFromRoot root ts = .ok { incomingStates := scan.incoming
                                                finalState := scan.current
                                                aggregateTransition := scan.aggregate })
      ∨ ((∃ e, exclusiveScanFromRoot root ts = .error e
            ∧ (e = .emptyVector "root_state" ∨ ∃ index, FailsAt index e))
        ∧ ∀ final, sequentialRun root ts ≠ .ok final) := by
  by_cases hroot : root = []
  · right
    subst hroot
    exact ⟨⟨_, rfl, .inl rfl⟩, fun final h => nomatch h⟩
  · have hvector : requireVector "root_state" root = .ok root := if_neg hroot
    rcases scanLoop_cases (scanInv_init root) ts 0 with
      ⟨scan, hloop, hinv⟩ | ⟨⟨e, index, hloop, hfails⟩, hstop⟩
    · left
      refine ⟨hroot, scan, hinv, ?_⟩
      rw [exclusiveScanFromRoot, hvector]
      simp only [bind_ok, pure_ok]
      exact ⟨root, rfl, scan, hloop, (), checkAggregate_ok hinv, rfl⟩
    · right
      refine ⟨⟨e, ?_, .inr ⟨index, hfails⟩⟩, ?_⟩
      · rw [exclusiveScanFromRoot, hvector]
        show ((ts.zipIdx 0).foldlM (scanStep root) _ >>= _) = _
        rw [hloop]
        rfl
      · rw [sequentialRun_eq hroot]
        exact hstop

/-- The aggregate takes a state exactly when the sequential run succeeds from it. -/
theorem aggregate_sequentialRun {n : Nat} {ts : List AffineGuardTransition} {aggregate}
    (hdims : AllDimension n ts) (hagg : AggregateOf n ts (some aggregate))
    (state final : List Int) :
    aggregate.apply state = .ok final ↔ sequentialRun state ts = .ok final := by
  by_cases hstate : state = []
  · constructor
    · intro h
      exact absurd hstate (ne_nil_of_dimension (apply_ok.mp h).1)
    · intro h
      rw [hstate] at h
      exact nomatch h
  · rw [sequentialRun_eq hstate]
    exact aggregate_apply hdims hagg

/--
**The exclusive scan is sequential execution.**

It succeeds exactly when the run from the root does. On success the `i`-th incoming
state is where the first `i` transitions lead, the final state is where all of them
lead, and the aggregate accepts exactly the states from which the run succeeds. The
two checks of the aggregate after the loop never fire.
-/
theorem exclusiveScan_sequential (root : List Int) (ts : List AffineGuardTransition) :
    ((∃ result, exclusiveScanFromRoot root ts = .ok result)
        ↔ ∃ final, sequentialRun root ts = .ok final)
      ∧ (∀ result, exclusiveScanFromRoot root ts = .ok result →
          result.incomingStates.length = ts.length
          ∧ (∀ i state, result.incomingStates[i]? = some state →
              sequentialRun root (ts.take i) = .ok state)
          ∧ sequentialRun root ts = .ok result.finalState
          ∧ (result.aggregateTransition = none ↔ ts = [])
          ∧ ∀ aggregate, result.aggregateTransition = some aggregate →
              (∀ state, aggregate.accepts state = .ok true
                ↔ ∃ final, sequentialRun state ts = .ok final)
              ∧ ∀ state final, aggregate.apply state = .ok final
                ↔ sequentialRun state ts = .ok final)
      ∧ exclusiveScanFromRoot root ts ≠ .error .aggregateRejects
      ∧ exclusiveScanFromRoot root ts ≠ .error .aggregateDisagrees := by
  rcases exclusiveScan_cases root ts with
    ⟨hroot, scan, hinv, hscan⟩ | ⟨⟨e, hscan, herror⟩, hstop⟩
  · obtain ⟨hdims, -⟩ := (foldlM_apply_ok rfl).mp hinv.ran
    have hrun : sequentialRun root ts = .ok scan.current := by
      rw [sequentialRun_eq hroot]
      exact hinv.ran
    refine ⟨⟨fun _ => ⟨_, hrun⟩, fun _ => ⟨_, hscan⟩⟩, ?_, by rw [hscan]; exact nofun,
      by rw [hscan]; exact nofun⟩
    intro result hresult
    rw [hscan] at hresult
    injection hresult with hresult
    subst hresult
    refine ⟨hinv.length, fun i state hi => ?_, hrun, ?_, fun aggregate haggregate => ?_⟩
    · rw [sequentialRun_eq hroot]
      exact hinv.incoming i state hi
    · have hagg := hinv.aggregate
      constructor
      · intro (hnone : scan.aggregate = none)
        rw [hnone] at hagg
        exact hagg
      · rintro rfl
        cases hsome : scan.aggregate with
        | none => rfl
        | some aggregate =>
            rw [hsome] at hagg
            obtain ⟨_, _, hcons, -⟩ := hagg
            exact absurd hcons (by simp)
    · have hagg := hinv.aggregate
      rw [show scan.aggregate = some aggregate from haggregate] at hagg
      have happly := aggregate_sequentialRun hdims hagg
      refine ⟨fun state => ?_, happly⟩
      constructor
      · intro haccepts
        obtain ⟨hlen, hin⟩ := accepts_ok.mp haccepts
        exact ⟨_, (happly state _).mp (apply_ok.mpr ⟨hlen, hin, rfl⟩)⟩
      · rintro ⟨final, hfinal⟩
        obtain ⟨hlen, hin, -⟩ := apply_ok.mp ((happly state final).mpr hfinal)
        exact accepts_ok.mpr ⟨hlen, hin⟩
  · have hno : ∀ final, sequentialRun root ts ≠ .ok final := hstop
    refine ⟨⟨?_, ?_⟩, ?_, ?_, ?_⟩
    · rintro ⟨result, hresult⟩
      rw [hscan] at hresult
      exact nomatch hresult
    · rintro ⟨final, hfinal⟩
      exact absurd hfinal (hno final)
    · intro result hresult
      rw [hscan] at hresult
      exact nomatch hresult
    · rw [hscan]
      exact fun h => (scanError_ne herror).1 (Except.error.inj h)
    · rw [hscan]
      exact fun h => (scanError_ne herror).2 (Except.error.inj h)

end AttestedCompute.Affine
