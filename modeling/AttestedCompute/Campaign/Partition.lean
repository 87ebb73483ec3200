import AttestedCompute.Campaign.Check
import AttestedCompute.Lib.Intervals

/-!
# What an accepted campaign covers

A manifest with an empty report is a chain of windows: each starts one past the end of
the one before, with the seed the one before recorded. Primer windows end below the
claimed range, so the windows that do count cover it whatever the lengths are.

The lengths are not checked for sign, and nothing asks the primers to come first. A
campaign whose windows have positive spans is a partition of the whole cover, and its
counting windows are one block when no primer follows one of them.
-/

namespace AttestedCompute.Campaign

open Fallible

/-- A window row with its integers read. `expectViol` is read only off a primer. -/
structure Window where
  lo : Int
  hi : Int
  segLen : Int
  segCount : Int
  seed : Int
  carry : Int
  primer : Bool
  expectViol : Option Int
  deriving DecidableEq, Repr

/-- The violations a row expects, if its verdict counts. -/
def Dict.violations (row : Dict) (primer : Int) : Except Stop (Option Int) :=
  if primer ≠ 0 then .ok none else some <$> row.int "expectViol"

/-- The integers of a row. -/
def Dict.window (row : Dict) : Except Stop Window := do
  let lo ← row.int "lo"
  let hi ← row.int "hi"
  let segLen ← row.int "segLen"
  let segCount ← row.int "segCount"
  let seed ← row.int "seed"
  let carry ← row.int "carry"
  let primer ← row.int "primer"
  let expectViol ← row.violations primer
  pure { lo := lo, hi := hi, segLen := segLen, segCount := segCount, seed := seed, carry := carry
         primer := decide (primer ≠ 0), expectViol := expectViol }

namespace Window

/-- The integers of the window. -/
def range (w : Window) : Set ℤ := Set.Icc w.lo w.hi

def span (w : Window) : Int := w.segLen * w.segCount

end Window

/-- The windows whose verdict counts. -/
def counting (windows : List Window) : List Window := windows.filter fun w => !w.primer

/-- The integers of the windows. -/
def covered (windows : List Window) : Set ℤ := {n | ∃ w ∈ windows, n ∈ w.range}

/-- Each window starts with the seed that the one before it recorded. -/
def SeedChain : Int → List Window → Prop
  | _, [] => True
  | seed, w :: ws => w.seed = seed ∧ SeedChain w.carry ws

/-- The four numbers of the header that the cover is about. -/
structure Claimed where
  coverLo : Int
  rangeLo : Int
  rangeHi : Int
  initialSeed : Int
  deriving DecidableEq, Repr

def Dict.claimed (header : Dict) : Except Stop Claimed := do
  let coverLo ← header.int "cover-lo"
  let rangeLo ← header.int "range-lo"
  let rangeHi ← header.int "range-hi"
  let initialSeed ← header.int "initial-seed"
  pure { coverLo := coverLo, rangeLo := rangeLo, rangeHi := rangeHi, initialSeed := initialSeed }

/-- **What every accepted campaign is**, whatever the signs of its lengths. -/
structure Chained (c : Claimed) (windows : List Window) : Prop where
  seeds : SeedChain c.initialSeed windows
  abutting : Intervals.Abutting Window.lo Window.hi c.coverLo windows (c.rangeHi + 1)
  spans : ∀ w ∈ windows, w.lo + w.span - 1 = w.hi
  verdicts : ∀ w ∈ counting windows, w.expectViol = some 0
  primers : ∀ w ∈ windows, w.primer = true → w.hi < c.rangeLo
  rangeLo : c.coverLo ≤ c.rangeLo
  /-- The counting windows cover the claimed range. -/
  covers : Set.Icc c.rangeLo c.rangeHi ⊆ covered (counting windows)

/-- The windows are a partition of the whole cover. -/
structure Partitioned (c : Claimed) (windows : List Window) : Prop where
  nonempty : ∀ w ∈ windows, w.range.Nonempty
  increasing : windows.Pairwise fun v w => v.hi < w.lo
  disjoint : windows.Pairwise fun v w => Disjoint v.range w.range
  cover : covered windows = Set.Icc c.coverLo c.rangeHi
  /-- What the counting windows leave of the cover is the primers. -/
  rest : covered (counting windows)
    = Set.Icc c.coverLo c.rangeHi \ covered (windows.filter Window.primer)

/-- The integers of the windows are a block that holds the claimed range. -/
def Contiguous (c : Claimed) (windows : List Window) : Prop :=
  ∃ first last, covered windows = Set.Icc first last
    ∧ Set.Icc c.rangeLo c.rangeHi ⊆ Set.Icc first last

/-! ## What one row that reports nothing says -/

theorem reportIf_nil {bad : Prop} [Decidable bad] {p : Problem} :
    reportIf bad p = [] ↔ ¬ bad := by
  unfold reportIf
  split
  · rename_i h
    simp [h]
  · rename_i h
    simp [h]

theorem checkVerdict_nil {claimLo hi primer : Int} {i : Nat} {row : Dict}
    (h : checkVerdict claimLo i row hi primer = .ok []) :
    (primer ≠ 0 ∧ hi < claimLo) ∨ (primer = 0 ∧ row.int "expectViol" = .ok 0) := by
  unfold checkVerdict at h
  split at h
  · rename_i hprimer
    simp only [bind_ok, pure_ok, reportIf_nil] at h
    obtain ⟨-, -, hhi⟩ := h
    exact Or.inl ⟨hprimer, by omega⟩
  · rename_i hprimer
    simp only [bind_ok, pure_ok, reportIf_nil, not_not] at h
    obtain ⟨v, hv, -, -, rfl⟩ := h
    exact Or.inr ⟨not_not.mp hprimer, hv⟩

/-- **One row.** A row that reports nothing is a window with the expected start and seed. -/
theorem checkRow_nil {claimLo expectLo expectSeed nextLo nextSeed : Int} {i : Nat} {row : Dict}
    (h : checkRow claimLo i row expectLo expectSeed = .ok ([], nextLo, nextSeed)) :
    ∃ w, row.window = .ok w ∧ w.lo = expectLo ∧ w.seed = expectSeed ∧ w.hi + 1 = nextLo
      ∧ w.carry = nextSeed ∧ w.lo + w.span - 1 = w.hi
      ∧ (w.primer = true → w.hi < claimLo) ∧ (w.primer = false → w.expectViol = some 0) := by
  simp only [checkRow, bind_ok, pure_ok, Prod.mk.injEq, List.append_eq_nil_iff, reportIf_nil,
    not_not] at h
  obtain ⟨index, -, lo, hlo, -, -, seed, hseed, -, -, segLen, hlen, segCount, hcount, hi, hhi, -,
    -, primer, hprimer, verdict, hverdict, carry, hcarry, ⟨⟨⟨⟨-, hstart⟩, hchain⟩, hspan⟩, rfl⟩,
    hnext, hcarryNext⟩ := h
  refine ⟨{ lo := lo, hi := hi, segLen := segLen, segCount := segCount, seed := seed
            carry := carry, primer := decide (primer ≠ 0)
            expectViol := if primer ≠ 0 then none else some 0 }, ?_, hstart, hchain, hnext,
    hcarryNext, hspan, ?_, ?_⟩
  · have hviol : row.violations primer = .ok (if primer ≠ 0 then none else some 0) := by
      unfold Dict.violations
      rcases checkVerdict_nil hverdict with ⟨hne, -⟩ | ⟨heq, hzero⟩
      · rw [if_pos hne, if_pos hne]
      · rw [if_neg (not_not.mpr heq), if_neg (not_not.mpr heq), hzero]
        rfl
    simp only [Dict.window, bind_ok, pure_ok]
    exact ⟨lo, hlo, hi, hhi, segLen, hlen, segCount, hcount, seed, hseed, carry, hcarry, primer,
      hprimer, _, hviol, rfl⟩
  · intro hp
    have hne : primer ≠ 0 := of_decide_eq_true hp
    rcases checkVerdict_nil hverdict with ⟨-, hlt⟩ | ⟨heq, -⟩
    · exact hlt
    · exact absurd heq hne
  · intro hp
    have heq : ¬ primer ≠ 0 := of_decide_eq_false hp
    exact if_neg heq

/-- **The whole loop.** Rows that report nothing are a chain of windows. -/
theorem checkRows_nil {claimLo expectLo expectSeed stop : Int} {i : Nat} {rows : List Dict}
    (h : checkRows claimLo i rows expectLo expectSeed = .ok ([], stop)) :
    ∃ windows, List.Forall₂ (fun row w => Dict.window row = .ok w) rows windows
      ∧ SeedChain expectSeed windows
      ∧ Intervals.Abutting Window.lo Window.hi expectLo windows stop
      ∧ ∀ w ∈ windows, w.lo + w.span - 1 = w.hi ∧ (w.primer = true → w.hi < claimLo)
          ∧ (w.primer = false → w.expectViol = some 0) := by
  induction rows generalizing i expectLo expectSeed with
  | nil =>
      injection h with h
      exact ⟨[], .nil, trivial, (Prod.mk.inj h).2, fun w hw => by cases hw⟩
  | cons row rows ih =>
      simp only [checkRows, bind_ok, pure_ok, Prod.mk.injEq, List.append_eq_nil_iff,
        Prod.exists] at h
      obtain ⟨problems, nextLo, nextSeed, hrow, rest, stop', hrest, ⟨rfl, rfl⟩, rfl⟩ := h
      obtain ⟨w, hw, hlo, hseed, hnext, hcarry, hspan, hprimer, hviol⟩ := checkRow_nil hrow
      obtain ⟨ws, hws, hseeds, habut, hall⟩ := ih hrest
      refine ⟨w :: ws, .cons hw hws, ⟨hseed, hcarry ▸ hseeds⟩, ⟨hlo, hnext ▸ habut⟩, ?_⟩
      intro v hv
      rcases List.mem_cons.mp hv with rfl | hv
      · exact ⟨hspan, hprimer, hviol⟩
      · exact hall v hv

/-! ## What an accepted manifest says -/

/-- An empty report leaves every check of the routine empty. -/
theorem check_nil {text : Py.Str} {artifacts : Artifacts} {header : Dict} {rows : List Dict}
    (h : check text artifacts = .ok (header, rows, [])) :
    ∃ c, header.claimed = .ok c ∧ c.coverLo ≤ c.rangeLo
      ∧ checkRows c.rangeLo 0 rows c.coverLo c.initialSeed = .ok ([], c.rangeHi + 1) := by
  simp only [check, bind_ok, Prod.exists] at h
  obtain ⟨header', rows', -, h⟩ := h
  split at h
  · rename_i hmissing
    simp only [pure_ok, Prod.mk.injEq] at h
    exact absurd h.2.2 hmissing
  · simp only [bind_ok] at h
    obtain ⟨target, -, windows, -, windowsText, -, h⟩ := h
    split at h
    · simp only [pure_ok, Prod.mk.injEq, List.append_eq_nil_iff] at h
      exact absurd h.2.2.2 (by simp)
    · simp only [bind_ok, pure_ok, Prod.mk.injEq, Prod.exists, List.append_eq_nil_iff,
        reportIf_nil, not_not, not_lt] at h
      obtain ⟨coverLo, hcover, rangeLo, hlo, rangeHi, hhi, seed, hseed, problems, stop, hrows,
        artifactProblems, -, rfl, rfl, ⟨⟨⟨⟨-, -⟩, hbelow⟩, rfl⟩, rfl⟩, -⟩ := h
      refine ⟨⟨coverLo, rangeLo, rangeHi, seed⟩, ?_, hbelow, hrows⟩
      simp only [Dict.claimed, bind_ok, pure_ok]
      exact ⟨coverLo, hcover, rangeLo, hlo, rangeHi, hhi, seed, hseed, rfl⟩

theorem mem_counting {windows : List Window} {w : Window} :
    w ∈ counting windows ↔ w ∈ windows ∧ w.primer = false := by
  simp [counting]

/-- An accepted manifest is a chain whose counting windows cover the claimed range. -/
theorem chained_of_check {text : Py.Str} {artifacts : Artifacts} {header : Dict}
    {rows : List Dict} (h : check text artifacts = .ok (header, rows, [])) :
    ∃ c windows, header.claimed = .ok c ∧ rows.mapM Dict.window = .ok windows
      ∧ Chained c windows := by
  obtain ⟨c, hc, hbelow, hrows⟩ := check_nil h
  obtain ⟨windows, hread, hseeds, habut, hall⟩ := checkRows_nil hrows
  have hprimers : ∀ w ∈ windows, w.primer = true → w.hi < c.rangeLo := fun w hw =>
    (hall w hw).2.1
  refine ⟨c, windows, hc, mapM_ok.mpr hread, hseeds, habut, fun w hw => (hall w hw).1, ?_,
    hprimers, hbelow, ?_⟩
  · intro w hw
    obtain ⟨hw, hprimer⟩ := mem_counting.mp hw
    exact (hall w hw).2.2 hprimer
  · rintro n ⟨hlow, hhigh⟩
    obtain ⟨w, hw, hmem⟩ := habut.exists_mem (Int.le_trans hbelow hlow) (Int.lt_add_one_of_le hhigh)
    refine ⟨w, mem_counting.mpr ⟨hw, ?_⟩, hmem⟩
    -- a primer ends below the claimed range, so it does not hold a point of it
    by_contra hprimer
    have hlt := hprimers w hw (Bool.eq_true_of_not_eq_false hprimer)
    have hle : n ≤ w.hi := hmem.2
    omega

/-! ## Positive spans -/

theorem Chained.le {c : Claimed} {windows : List Window} (h : Chained c windows)
    (hspans : ∀ w ∈ windows, 1 ≤ w.span) : ∀ w ∈ windows, w.lo ≤ w.hi := by
  intro w hw
  have hland := h.spans w hw
  have hspan := hspans w hw
  omega

/-- **Windows of positive spans partition the cover.** -/
theorem Chained.partitioned {c : Claimed} {windows : List Window} (h : Chained c windows)
    (hspans : ∀ w ∈ windows, 1 ≤ w.span) : Partitioned c windows := by
  have hne := h.le hspans
  have hlt := h.abutting.pairwise_lt hne
  have hdisjoint : windows.Pairwise fun v w => Disjoint v.range w.range := by
    refine hlt.imp fun {v w} hvw => Set.disjoint_left.mpr fun n hv hw => ?_
    have hhigh : n ≤ v.hi := hv.2
    have hlow : w.lo ≤ n := hw.1
    omega
  have hcover : covered windows = Set.Icc c.coverLo c.rangeHi := by
    ext n
    refine (h.abutting.exists_mem_iff hne n).trans ?_
    exact and_congr_right fun _ => Int.lt_add_one_iff
  refine ⟨fun w hw => Set.nonempty_Icc.mpr (hne w hw), hlt, hdisjoint, hcover, ?_⟩
  have hsymm : Std.Symm fun v w : Window => Disjoint v.range w.range := ⟨fun _ _ h => h.symm⟩
  rw [← hcover]
  ext n
  constructor
  · rintro ⟨w, hw, hmem⟩
    obtain ⟨hw, hprimer⟩ := mem_counting.mp hw
    refine ⟨⟨w, hw, hmem⟩, ?_⟩
    rintro ⟨v, hv, hmem'⟩
    obtain ⟨hv, hprimer'⟩ := List.mem_filter.mp hv
    have hne : v ≠ w := fun he => by rw [he, hprimer] at hprimer'; cases hprimer'
    exact Set.disjoint_left.mp (hdisjoint.forall hv hw hne) hmem' hmem
  · rintro ⟨⟨w, hw, hmem⟩, hrest⟩
    refine ⟨w, mem_counting.mpr ⟨hw, ?_⟩, hmem⟩
    by_contra hprimer
    exact hrest ⟨w, List.mem_filter.mpr ⟨hw, Bool.eq_true_of_not_eq_false hprimer⟩, hmem⟩

theorem counting_append {primers rest : List Window} (hprimers : ∀ w ∈ primers, w.primer = true)
    (hrest : ∀ w ∈ rest, w.primer = false) : counting (primers ++ rest) = rest := by
  have hfirst : counting primers = [] :=
    List.filter_eq_nil_iff.mpr fun w hw => by simp [hprimers w hw]
  have hlast : counting rest = rest :=
    List.filter_eq_self.mpr fun w hw => by simp [hrest w hw]
  unfold counting at *
  rw [List.filter_append, hfirst, hlast, List.nil_append]

/-- **Primers first.** When no primer follows a counting window, the counting windows are
one block. -/
theorem Chained.contiguous {c : Claimed} {primers rest : List Window}
    (h : Chained c (primers ++ rest)) (hspans : ∀ w ∈ primers ++ rest, 1 ≤ w.span)
    (hprimers : ∀ w ∈ primers, w.primer = true) (hrest : ∀ w ∈ rest, w.primer = false) :
    Contiguous c (counting (primers ++ rest)) := by
  have hne := h.le hspans
  obtain ⟨first, hpre, hpost⟩ := h.abutting.of_append
  have hcover : covered (counting (primers ++ rest)) = Set.Icc first c.rangeHi := by
    rw [counting_append hprimers hrest]
    ext n
    refine (hpost.exists_mem_iff (fun w hw => hne w (List.mem_append_right _ hw)) n).trans ?_
    exact and_congr_right fun _ => Int.lt_add_one_iff
  refine ⟨first, c.rangeHi, hcover, ?_⟩
  rw [← hcover]
  exact h.covers

/-- **What an empty report establishes.**

The windows are a chain of seeds from the declared one, the counting windows expect no
violations and cover the claimed range. If the spans are positive the windows partition
the cover, and if moreover the primers come first the counting windows are one block. -/
theorem check_establishes {text : Py.Str} {artifacts : Artifacts} {header : Dict}
    {rows : List Dict} (h : check text artifacts = .ok (header, rows, [])) :
    ∃ c windows, header.claimed = .ok c ∧ rows.mapM Dict.window = .ok windows
      ∧ Chained c windows
      ∧ ((∀ w ∈ windows, 1 ≤ w.span) → Partitioned c windows
          ∧ ∀ primers rest, windows = primers ++ rest → (∀ w ∈ primers, w.primer = true) →
              (∀ w ∈ rest, w.primer = false) → Contiguous c (counting windows)) := by
  obtain ⟨c, windows, hc, hread, hchained⟩ := chained_of_check h
  refine ⟨c, windows, hc, hread, hchained, fun hspans => ⟨hchained.partitioned hspans, ?_⟩⟩
  rintro primers rest rfl hprimers hrest
  exact hchained.contiguous hspans hprimers hrest

/-! ## Two manifests -/

/-- A row whose artifact is the empty file. -/
def sampleRow (fields : List String) : Py.Str :=
  'w' :: (fields ++ ["binBytes=0", "binSha256="]).flatMap (' ' :: ·.toList)
    ++ (Sha256.digest []).hexChars ++ ['\n']

def sampleText (windows : String) (rows : Py.Str) : Py.Str :=
  [KIND, "name=n", "producer=p", "program=g", "emitter=e", "reduced-family=f", "claim=c",
    "cover-lo=1", "range-lo=21", "range-hi=30", windows, "initial-seed=5", "compcert-version=v",
    "compcert-target=x86_64-linux", "link=l", "start-stub-sha256=s", "success=s", "output=o",
    "windows-begin"].flatMap (·.toList ++ ['\n']) ++ rows ++ "windows-end".toList

/-- One primer and one counting window. -/
def primerFirst : Py.Str := sampleText "windows=2"
  (sampleRow ["0", "lo=1", "hi=20", "segLen=10", "segCount=2", "seed=5", "carry=6", "primer=1"]
    ++ sampleRow ["1", "lo=21", "hi=30", "segLen=5", "segCount=2", "seed=6", "carry=7", "primer=0",
      "expectViol=0"])

/-- A counting window below the claimed range, a primer, and a counting window. -/
def primerBetween : Py.Str := sampleText "windows=3"
  (sampleRow ["0", "lo=1", "hi=10", "segLen=10", "segCount=1", "seed=5", "carry=6", "primer=0",
      "expectViol=0"]
    ++ sampleRow ["1", "lo=11", "hi=20", "segLen=10", "segCount=1", "seed=6", "carry=7", "primer=1"]
    ++ sampleRow ["2", "lo=21", "hi=30", "segLen=5", "segCount=2", "seed=7", "carry=8", "primer=0",
      "expectViol=0"])

def emptyArtifacts : Artifacts := fun _ => some []

def sampleClaimed : Claimed := ⟨1, 21, 30, 5⟩

def primerFirstWindows : List Window :=
  [⟨1, 20, 10, 2, 5, 6, true, none⟩, ⟨21, 30, 5, 2, 6, 7, false, some 0⟩]

def primerBetweenWindows : List Window :=
  [⟨1, 10, 10, 1, 5, 6, false, some 0⟩, ⟨11, 20, 10, 1, 6, 7, true, none⟩,
    ⟨21, 30, 5, 2, 7, 8, false, some 0⟩]

/-- The numbers of a manifest and its report, evaluated. -/
def evaluate (text : Py.Str) (artifacts : Artifacts) :
    Except Stop (Except Stop Claimed × Except Stop (List Window) × List Problem) :=
  (check text artifacts).map fun r => (r.1.claimed, r.2.1.mapM Dict.window, r.2.2)

private theorem check_of_evaluate {text : Py.Str} {artifacts : Artifacts} {c : Claimed}
    {windows : List Window} (h : evaluate text artifacts = .ok (.ok c, .ok windows, [])) :
    ∃ header rows, check text artifacts = .ok (header, rows, []) ∧ header.claimed = .ok c
      ∧ rows.mapM Dict.window = .ok windows := by
  unfold evaluate at h
  cases hcheck : check text artifacts with
  | error stop => rw [hcheck] at h; cases h
  | ok report =>
      rw [hcheck] at h
      injection h with h
      obtain ⟨hclaimed, hwindows, hproblems⟩ := Prod.mk.inj h |>.imp_right Prod.mk.inj
      exact ⟨report.1, report.2.1, by rw [← hproblems], hclaimed, hwindows⟩

/-- The theorem at one manifest. -/
theorem primerFirst_establishes :
    ∃ header rows, check primerFirst emptyArtifacts = .ok (header, rows, [])
      ∧ ∃ c windows, header.claimed = .ok c ∧ rows.mapM Dict.window = .ok windows
        ∧ Chained c windows
        ∧ ((∀ w ∈ windows, 1 ≤ w.span) → Partitioned c windows
          ∧ ∀ primers rest, windows = primers ++ rest → (∀ w ∈ primers, w.primer = true) →
              (∀ w ∈ rest, w.primer = false) → Contiguous c (counting windows)) := by
  have heval : evaluate primerFirst emptyArtifacts
      = .ok (.ok sampleClaimed, .ok primerFirstWindows, []) := by decide +kernel
  obtain ⟨header, rows, hcheck, -, -⟩ := check_of_evaluate heval
  exact ⟨header, rows, hcheck, check_establishes hcheck⟩

/-- **A primer may stand between two counting windows.** The manifest has an empty report
and positive spans, and its counting windows are `[1, 10]` and `[21, 30]`. -/
theorem primerBetween_not_contiguous :
    ∃ header rows, check primerBetween emptyArtifacts = .ok (header, rows, [])
      ∧ header.claimed = .ok sampleClaimed
      ∧ rows.mapM Dict.window = .ok primerBetweenWindows
      ∧ (∀ w ∈ primerBetweenWindows, 1 ≤ w.span)
      ∧ ¬ Contiguous sampleClaimed (counting primerBetweenWindows) := by
  have heval : evaluate primerBetween emptyArtifacts
      = .ok (.ok sampleClaimed, .ok primerBetweenWindows, []) := by decide +kernel
  obtain ⟨header, rows, hcheck, hclaimed, hwindows⟩ := check_of_evaluate heval
  refine ⟨header, rows, hcheck, hclaimed, hwindows, by decide, ?_⟩
  rintro ⟨first, last, hcover, -⟩
  have hten : (10 : ℤ) ∈ covered (counting primerBetweenWindows) :=
    ⟨⟨1, 10, 10, 1, 5, 6, false, some 0⟩, by decide, by decide, by decide⟩
  have htwenty : (21 : ℤ) ∈ covered (counting primerBetweenWindows) :=
    ⟨⟨21, 30, 5, 2, 7, 8, false, some 0⟩, by decide, by decide, by decide⟩
  rw [hcover] at hten htwenty
  have hbetween : (15 : ℤ) ∈ covered (counting primerBetweenWindows) := by
    rw [hcover]
    exact ⟨by linarith [hten.1], by linarith [htwenty.2]⟩
  obtain ⟨w, hw, hlow, hhigh⟩ := hbetween
  have hout : ∀ w ∈ counting primerBetweenWindows, ¬ (w.lo ≤ 15 ∧ 15 ≤ w.hi) := by decide
  exact hout w hw ⟨hlow, hhigh⟩

end AttestedCompute.Campaign
