import AttestedCompute.Dirichlet.RecordValidity

/-!
# The loops of the validator

The loop over the ranges reads a mask off them, and the checks at both ends of the chunk fix
the leading and trailing counts. Signs that lead from bracket to bracket leave one sign for
each ordinate, and there are fewer brackets than determinate samples.
-/

namespace AttestedCompute.Dirichlet

open Fallible CharacterRecord

variable {value : CharacterRecord} {start : Int} {mask : List Bool}

/-! ## The loop over the ranges -/

theorem checkRange_ok {stop : Int} {previousStop : Option Int} {range : AmbiguityRange} :
    checkRange start stop previousStop range = .ok ()
      ↔ (isUint64 range.firstTNumerator = true ∧ onGrid start range.firstTNumerator = true)
        ∧ (isUint64 range.stopTNumerator = true ∧ onGrid start range.stopTNumerator = true)
        ∧ start ≤ range.firstTNumerator ∧ range.stopTNumerator ≤ stop
        ∧ range.firstTNumerator < range.stopTNumerator
        ∧ ∀ before ∈ previousStop, before < range.firstTNumerator := by
  simp only [checkRange, bind_ok, failIf_ok, exists_const, not_not, not_or, not_exists_mem,
    Bool.not_eq_false, not_lt, ge_iff_le, not_le, gt_iff_lt]
  constructor
  · intro hall
    obtain ⟨hfirst, hstop, hlow, hhigh, hlt, _, hbefore⟩ := hall
    exact ⟨hfirst, hstop, hlow, hhigh, hlt, hbefore⟩
  · intro hall
    obtain ⟨hfirst, hstop, hlow, hhigh, hlt, hbefore⟩ := hall
    refine ⟨hfirst, hstop, hlow, hhigh, hlt, ?_, hbefore⟩
    have hgrid := onGrid_iff.mp hfirst.2
    have hgrid' := onGrid_iff.mp hstop.2
    rw [onGrid_iff]
    omega

theorem rangeCount_after (p : Int) (i k : Nat) : rangeCount ⟨after p i, after p (i + k)⟩ = k := by
  simp only [rangeCount, after, SOURCE_SAMPLE_NUMERATOR]
  omega

/-- The first range is the leading ambiguity, if there is any. -/
def Leads (value : CharacterRecord) (start : Int) (range : AmbiguityRange) : Prop :=
  value.leadingAmbiguityCount ≠ 0 → range.firstTNumerator = start
    ∧ range.stopTNumerator = start + value.leadingAmbiguityCount * SOURCE_SAMPLE_NUMERATOR

/-- **The loop reads a mask off the ranges.** -/
theorem maximalRuns_of_checkRanges {ranges : List AmbiguityRange} {n i : Nat}
    {previousStop : Option Int} {total total' : Int} (hi : i ≤ n)
    (hprevious : previousStop = none ∧ i = 0 ∨ previousStop = some (after start i))
    (h : checkRanges value start (after start n) previousStop total ranges = .ok total') :
    ∃ mask, i + mask.length = n ∧ MaximalRuns (after start i) mask ranges
      ∧ total' = total + mask.count false
      ∧ (previousStop ≠ none → mask.head? ≠ some false)
      ∧ (previousStop = none → ∀ range ∈ ranges.head?, Leads value start range) := by
  induction ranges generalizing i previousStop total with
  | nil =>
      rw [checkRanges, pure_ok] at h
      refine ⟨List.replicate (n - i) true, by simp; omega, .done _, ?_, fun _ => ?_, ?_⟩
      · rw [← h, List.count_replicate]
        simp
      · cases n - i <;> simp [List.replicate_succ]
      · intro _ range hrange
        cases hrange
  | cons range rest ih =>
      rw [checkRanges] at h
      simp only [bind_ok, failIf_ok, exists_const] at h
      obtain ⟨_, hrange, _, hleads, hrest⟩ := h
      obtain ⟨⟨_, hgrid⟩, ⟨_, hgrid'⟩, hlow, hhigh, hlt, hbefore⟩ := checkRange_ok.mp hrange
      obtain ⟨j, hj, hfirst⟩ := exists_index hlow hgrid (lt_of_lt_of_le hlt hhigh)
      obtain ⟨k, hk, hstop⟩ := exists_index (n := n + 1) (by omega) hgrid'
        (lt_of_le_of_lt hhigh (after_lt.mpr (Nat.lt_succ_self n)))
      rw [hfirst, hstop, after_lt] at hlt
      obtain ⟨count, rfl⟩ : ∃ count, k = j + (count + 1) := ⟨k - (j + 1), by omega⟩
      have hij : i ≤ j ∧ (previousStop ≠ none → i < j) := by
        rcases hprevious with ⟨hnone, rfl⟩ | hsome
        · exact ⟨Nat.zero_le j, fun hne => absurd hnone hne⟩
        · have hlt := hbefore _ hsome
          rw [hfirst, after_lt] at hlt
          exact ⟨hlt.le, fun _ => hlt⟩
      obtain ⟨gap, rfl⟩ := Nat.exists_eq_add_of_le hij.1
      obtain ⟨tail, hlength, hruns, htotal, hhead, _⟩ :=
        ih (show i + gap + (count + 1) ≤ n by omega) (.inr (congrArg some hstop)) hrest
      have hrangeEq : range = ⟨after start (i + gap), after start (i + gap + (count + 1))⟩ := by
        rw [← hfirst, ← hstop]
      refine ⟨List.replicate gap true ++ (List.replicate (count + 1) false ++ tail), ?_, ?_, ?_,
        fun hne => ?_, fun hnone => ?_⟩
      · simp only [List.length_append, List.length_replicate]
        omega
      · have hruns' := MaximalRuns.run gap count (hhead (by simp))
          (by rw [after_after, ← Nat.add_assoc]; exact hruns)
        rwa [after_after, after_after, ← Nat.add_assoc, ← hrangeEq] at hruns'
      · rw [htotal, hrangeEq, rangeCount_after]
        simp only [List.count_append, List.count_replicate]
        simp
        omega
      · have hpos := hij.2 hne
        cases gap with
        | zero => omega
        | succ gap => simp [List.replicate_succ]
      · intro range' hrange' hne
        rw [List.head?_cons, Option.mem_some_iff] at hrange'
        subst hrange'
        by_contra hnot
        exact hleads ⟨hnone, hne, not_and_or.mp hnot⟩

/-- **The loop accepts the maximal runs of every mask.** -/
theorem checkRanges_of_maximalRuns {p : Int} {ranges : List AmbiguityRange}
    (h : MaximalRuns p mask ranges) {n i : Nat} {previousStop : Option Int} {total : Int}
    (hstart : 0 ≤ start) (hn : after start n ≤ MAX_EVENT_COUNT) (hp : p = after start i)
    (hlength : i + mask.length = n)
    (hprevious : ∀ before ∈ previousStop, before = p ∧ mask.head? ≠ some false)
    (hleads : previousStop = none → ∀ range ∈ ranges.head?, Leads value start range)
    (htotal : total + mask.count false ≤ MAX_EVENT_COUNT) :
    checkRanges value start (after start n) previousStop total ranges
      = .ok (total + mask.count false) := by
  induction h generalizing i previousStop total with
  | done gap => simp [checkRanges, List.count_replicate]
  | @run p tail rest gap count hhead hrest ih =>
      subst hp
      simp only [List.length_append, List.length_replicate] at hlength
      have hcount : ((List.replicate gap true ++ (List.replicate (count + 1) false ++ tail)).count
          false : Int) = (count + 1 : Nat) + tail.count false := by
        simp only [List.count_append, List.count_replicate]
        simp
      have hle : ∀ x, start ≤ after start x := by
        intro x
        simp only [after, SOURCE_SAMPLE_NUMERATOR]
        omega
      have hsmall : ∀ x ≤ n, isUint64 (after start x) = true := by
        intro x hx
        have hx' := after_le (p := start).mpr hx
        have hx'' := hle x
        simp only [isUint64, Bool.and_eq_true, decide_eq_true_eq]
        omega
      rw [hcount] at htotal ⊢
      rw [after_after, after_after, ← Nat.add_assoc] at hleads ⊢
      rw [checkRanges]
      simp only [bind_ok, failIf_ok, exists_const, rangeCount_after]
      refine ⟨(), checkRange_ok.mpr ⟨⟨hsmall _ (by omega), onGrid_after _ _⟩,
        ⟨hsmall _ (by omega), onGrid_after _ _⟩, hle _, after_le.mpr (by omega),
        after_lt.mpr (by omega), fun before hbefore => ?_⟩, by omega, ?_, ?_⟩
      · obtain ⟨rfl, hfirst⟩ := hprevious before hbefore
        cases gap with
        | zero => exact absurd rfl hfirst
        | succ gap => exact after_lt.mpr (by omega)
      · intro hall
        obtain ⟨hnone, hne, hnot⟩ := hall
        exact not_and_or.mpr hnot (hleads hnone _ rfl hne)
      · have hend : after (after start i) (gap + (count + 1)) = after start (i + gap + (count + 1)) := by
          rw [after_after, ← Nat.add_assoc]
        have h := ih hend (by omega)
          (fun before (hbefore : before ∈ some (after start (i + gap + (count + 1)))) =>
            ⟨(Option.mem_some_iff.mp hbefore).symm.trans hend.symm, hhead⟩) (fun h => by cases h)
          (show total + (count + 1 : Nat) + tail.count false ≤ MAX_EVENT_COUNT by omega)
        rw [h, Int.add_assoc]

/-! ## The ambiguity at both ends -/

theorem plot_replicate_ranges (p : Int) (count : Nat) :
    (plot p (List.replicate count false)).ambiguityRanges
      = if count = 0 then [] else [⟨p, after p count⟩] := by
  cases count with
  | zero => rfl
  | succ count => rw [plot_ambiguous, if_neg (Nat.succ_ne_zero count)]

/-- **The checks at the front fix the leading count.** -/
theorem leading_iff (hranges : value.ambiguityRanges = (plot start mask).ambiguityRanges)
    (hmask : true ∈ mask) :
    (checkLeading value start = .ok () ∧ ∀ range ∈ value.ambiguityRanges.head?,
        Leads value start range)
      ↔ value.leadingAmbiguityCount = (plot start mask).leadingAmbiguityCount := by
  obtain ⟨count, tail, rfl⟩ := exists_leading hmask
  have hhead : (true :: tail).head? ≠ some false := by simp
  have hsplit := plot_append_ranges start (List.replicate count false) hhead
  rw [plot_replicate_ranges, List.length_replicate] at hsplit
  rw [(plot_leading start count tail).2]
  unfold checkLeading Leads
  cases count with
  | zero =>
      -- the first sample is determinate, so no range starts there
      rw [if_pos rfl, after_zero, List.nil_append] at hsplit
      have hapart : ∀ range ∈ value.ambiguityRanges.head?, range.firstTNumerator ≠ start := by
        intro range hrange
        rw [hranges, hsplit] at hrange
        have hbounds := (maximalRuns_plot start (true :: tail)).bounds range
          (List.mem_of_mem_head? hrange)
        exact (hbounds.1.2 (by simp)).ne'
      rw [Int.natCast_zero]
      constructor
      · intro hall
        obtain ⟨hcheck, hleads⟩ := hall
        by_contra hne
        rw [if_neg hne, failIf_ok] at hcheck
        obtain ⟨range, hrange⟩ := Option.isSome_iff_exists.mp (List.isSome_head?.mpr hcheck)
        exact hapart range hrange (hleads range hrange hne).1
      · intro hzero
        rw [if_pos hzero, failIf_ok, not_exists_mem]
        exact ⟨hapart, fun _ _ hne => absurd hzero hne⟩
  | succ count =>
      rw [if_neg (Nat.succ_ne_zero count), List.singleton_append, ← hranges] at hsplit
      have hfirst : ∀ range ∈ value.ambiguityRanges.head?,
          range = ⟨start, after start (count + 1)⟩ := by
        intro range hrange
        rw [hsplit, List.head?_cons, Option.mem_some_iff] at hrange
        exact hrange.symm
      constructor
      · intro hall
        obtain ⟨hcheck, hleads⟩ := hall
        by_cases hzero : value.leadingAmbiguityCount = 0
        · rw [if_pos hzero, failIf_ok] at hcheck
          exact absurd ⟨_, by rw [hsplit]; rfl, rfl⟩ hcheck
        · have hstop := (hleads _ (by rw [hsplit]; rfl) hzero).2
          simp only [after, SOURCE_SAMPLE_NUMERATOR] at hstop
          omega
      · intro hcount
        rw [if_neg (by omega), failIf_ok, hsplit]
        refine ⟨List.cons_ne_nil _ _, fun range hrange _ => ?_⟩
        rw [List.head?_cons, Option.mem_some_iff] at hrange
        rw [← hrange]
        exact ⟨rfl, by simp only [after, hcount]⟩

/-- **The check at the back fixes the trailing count.** -/
theorem trailing_iff (hranges : value.ambiguityRanges = (plot start mask).ambiguityRanges)
    (hmask : true ∈ mask) :
    checkTrailing value (after start mask.length) = .ok ()
      ↔ value.trailingAmbiguityCount = (plot start mask).trailingAmbiguityCount := by
  obtain ⟨front, count, rfl⟩ := exists_trailing hmask
  have hlength : (front ++ true :: List.replicate count false).length = front.length + 1 + count := by
    simp
    omega
  have hafter : after start front.length + SOURCE_SAMPLE_NUMERATOR = after start (front.length + 1) := by
    rw [← after_after]
    simp [after]
  have hhead : (true :: List.replicate count false).head? ≠ some false := by simp
  have hsplit := plot_append_ranges start front hhead
  have hback : (plot (after start front.length) (true :: List.replicate count false)).ambiguityRanges
      = if count = 0 then [] else
        [⟨after start (front.length + 1), after start (front.length + 1 + count)⟩] := by
    rw [plot_cons, plot_one, hafter]
    show joinRanges [] (plot _ _).ambiguityRanges = _
    rw [joinRanges_nil_left, plot_replicate_ranges, after_after]
  rw [hback, ← hranges] at hsplit
  rw [(plot_trailing start front count).2, hlength]
  unfold checkTrailing
  cases count with
  | zero =>
      -- the last sample is determinate, so no range stops at the end
      rw [if_pos rfl, List.append_nil] at hsplit
      have hapart : ∀ range ∈ value.ambiguityRanges.getLast?,
          range.stopTNumerator ≠ after start (front.length + 1 + 0) := by
        intro range hrange
        rw [hsplit] at hrange
        have hbounds := (maximalRuns_plot start front).bounds range (List.mem_of_getLast? hrange)
        have hlt := after_lt (p := start).mpr (Nat.lt_succ_self front.length)
        exact (lt_of_le_of_lt hbounds.2.2 hlt).ne
      rw [Int.natCast_zero]
      constructor
      · intro hcheck
        by_contra hne
        rw [if_neg hne, failIf_ok] at hcheck
        exact hcheck fun range hrange => .inl (hapart range hrange)
      · intro hzero
        rw [if_pos hzero, failIf_ok, not_exists_mem]
        exact hapart
  | succ count =>
      rw [if_neg (Nat.succ_ne_zero count)] at hsplit
      have hlast : value.ambiguityRanges.getLast? = some ⟨after start (front.length + 1),
          after start (front.length + 1 + (count + 1))⟩ := by rw [hsplit, List.getLast?_concat]
      constructor
      · intro hcheck
        by_cases hzero : value.trailingAmbiguityCount = 0
        · rw [if_pos hzero, failIf_ok] at hcheck
          exact absurd ⟨_, hlast, rfl⟩ hcheck
        · rw [if_neg hzero, failIf_ok] at hcheck
          by_contra hne
          refine hcheck fun range hrange => .inr ?_
          rw [hlast, Option.mem_some_iff] at hrange
          rw [← hrange]
          simp only [after, SOURCE_SAMPLE_NUMERATOR]
          omega
      · intro hcount
        rw [if_neg (by omega), failIf_ok]
        intro hall
        rcases hall _ hlast with hne | hne
        · exact hne rfl
        · apply hne
          simp only [after, SOURCE_SAMPLE_NUMERATOR]
          omega

/-! ## One sign for each ordinate -/

/-- Up the grid, or the same entry again. -/
def Ascends (e e' : Int × Int) : Prop := e.1 < e'.1 ∨ e = e'

instance : IsTrans (Int × Int) Ascends where
  trans e e' e'' h h' := by
    rcases h with h | rfl
    · rcases h' with h' | rfl
      · exact .inl (h.trans h')
      · exact .inl h
    · exact h'

theorem consistent_of_ascends {entries : List (Int × Int)} (h : entries.IsChain Ascends) :
    Consistent entries := by
  intro key sign sign' hs hs'
  have hpair : entries.Pairwise fun e e' => e.1 = e'.1 → e.2 = e'.2 :=
    (List.isChain_iff_pairwise.mp h).imp fun {e e'} hascends hkey => by
      rcases hascends with hlt | rfl
      · exact absurd hkey hlt.ne
      · rfl
  have hflip : entries.Pairwise (flip fun e e' : Int × Int => e.1 = e'.1 → e.2 = e'.2) :=
    hpair.imp fun {e e'} h hkey => (h hkey.symm).symm
  exact hpair.forall_of_forall_of_flip (fun _ _ _ => rfl) hflip hs hs' rfl

/-- The first determinate sample, the brackets and the last determinate sample ascend. -/
theorem ascends_of_changes {brackets : List BracketRecord} {i lo hi : Nat} {sign last : Int}
    (hchanges : SignChanges start mask i brackets) (hchain : SignChain sign brackets last)
    (hmarks : ∀ j, i ≤ j → mask[j]? = some true → lo ≤ j ∧ j ≤ hi) (hle : lo ≤ hi) :
    List.IsChain Ascends ((after start lo, sign)
      :: (brackets.flatMap BracketRecord.ends ++ [(after start hi, last)])) := by
  induction brackets generalizing i lo sign with
  | nil =>
      rw [show sign = last from hchain]
      refine List.isChain_pair.mpr ?_
      rcases Nat.lt_or_eq_of_le hle with hlt | rfl
      · exact .inl (after_lt.mpr hlt)
      · exact .inr rfl
  | cons b rest ih =>
      obtain ⟨j, k, hij, hspans, hrest⟩ := hchanges
      obtain ⟨hsign, _, _, _, hchain⟩ := hchain
      have hj := hmarks j hij hspans.lowerMark
      have hlt := hspans.lt
      have htail := ih hrest hchain
        (fun x hx hmark => ⟨hx, (hmarks x (by omega) hmark).2⟩)
        (hmarks k (by omega) hspans.upperMark).2
      rw [← hspans.upper] at htail
      refine .cons_cons ?_ (.cons_cons ?_ htail)
      · show Ascends _ (b.lowerTNumerator, b.lowerSign.val)
        rw [hsign, hspans.lower]
        rcases Nat.lt_or_eq_of_le hj.1 with hlt | rfl
        · exact .inl (after_lt.mpr hlt)
        · exact .inr rfl
      · refine .inl ?_
        show b.lowerTNumerator < b.upperTNumerator
        rw [hspans.lower, hspans.upper]
        exact after_lt.mpr hlt

/-- Brackets need one more determinate sample than there are brackets. -/
theorem length_of_changes {brackets : List BracketRecord} {i : Nat}
    (h : SignChanges start mask i brackets) (hne : brackets ≠ []) :
    brackets.length + 1 ≤ (mask.drop i).count true := by
  have hmono : ∀ {a b : Nat}, a ≤ b → (mask.drop b).count true ≤ (mask.drop a).count true := by
    intro a b hab
    obtain ⟨d, rfl⟩ := Nat.exists_eq_add_of_le hab
    rw [← List.drop_drop]
    exact (List.drop_sublist d _).count_le true
  induction brackets generalizing i with
  | nil => exact absurd rfl hne
  | cons b rest ih =>
      obtain ⟨j, k, hij, hspans, hrest⟩ := h
      have hlower := hmono hij
      rw [drop_of_getElem? hspans.lowerMark, List.count_cons_self] at hlower
      have hupper := hmono (show j + 1 ≤ k from hspans.lt)
      cases rest with
      | nil =>
          rw [drop_of_getElem? hspans.upperMark, List.count_cons_self] at hupper
          simp only [List.length_singleton]
          omega
      | cons b' rest =>
          have hcount := ih hrest (List.cons_ne_nil _ _)
          simp only [List.length_cons] at hcount ⊢
          omega

end AttestedCompute.Dirichlet
