import AttestedCompute.Platt.RunUnit
import AttestedCompute.Receipt.Sha256Eval

/-!
# Several workers on one unit

Leases are advisory, so any number of workers may run the same unit, in any order of their steps.
`_commit_unit` first tests whether there is a receipt and then replaces it, and these are two
steps: two workers can both find no receipt, and then the second one overwrites what the first one
has committed without a word. As long as nobody tests while a different receipt is about to be put
in place, a receipt that is there keeps its digest and every disagreement is reported.
-/

namespace AttestedCompute.Platt

open Fallible
open Py (Str)

/-- The files of a unit and where each worker stands. -/
structure World (ι : Type) where
  files : UnitFiles
  phases : ι → Phase

/-- The exception of `_commit_unit` for a different receipt. -/
def duplicateExecution : PlattError :=
  .schedule "duplicate execution of a unit produced a different semantic digest"

variable {ι : Type} [DecidableEq ι]

/-- One worker takes one step. -/
def World.step (job : Job) (options : ι → Options) (w : World ι) (i : ι) (outside : Surroundings) :
    World ι :=
  let next := Platt.step job (options i) outside w.files (w.phases i)
  { files := next.1, phases := Function.update w.phases i next.2 }

/-- A step of some worker before which the condition holds. -/
def Advances (job : Job) (options : ι → Options) (condition : World ι → ι → Prop)
    (w w' : World ι) : Prop :=
  ∃ i outside, condition w i ∧ w' = w.step job options i outside

/-- A run: any workers, in any order, with any runner. -/
def Run (job : Job) (options : ι → Options) (condition : World ι → ι → Prop) :
    World ι → World ι → Prop :=
  Relation.ReflTransGen (Advances job options condition)

/-- A worker that tests for a receipt and finds none does so while no receipt with another digest
is about to be put in place. -/
def Undisputed (w : World ι) (i : ι) : Prop :=
  ∀ receipt, w.phases i = .testCommit receipt → w.files.receipt = none →
    ∀ j other, w.phases j = .replaceCommit other → other.unitSha256 = receipt.unitSha256

/-! ## The invariant -/

/-- The call has not gone past its own test for a receipt. -/
def Phase.Idle : Phase → Prop
  | .start => True
  | .readReceipt => True
  | .done none _ => True
  | _ => False

/-- What holds of a worker, given the receipt that is there. -/
def PhaseOk (job : Job) (file : Option UnitReceipt) : Phase → Prop
  | .writeLog receipt _ => validateUnitReceipt receipt job.schedule job.unit = .ok ()
  | .testCommit receipt => validateUnitReceipt receipt job.schedule job.unit = .ok ()
  | .readCommit receipt =>
      validateUnitReceipt receipt job.schedule job.unit = .ok () ∧ file ≠ none
  | .replaceCommit receipt =>
      validateUnitReceipt receipt job.schedule job.unit = .ok () ∧
        ∀ there ∈ file, there.unitSha256 = receipt.unitSha256
  | .unlinkCheckpoint receipt _ => ∃ there ∈ file, there.unitSha256 = receipt.unitSha256
  | .releaseUnit receipt _ => ∃ there ∈ file, there.unitSha256 = receipt.unitSha256
  | .done (some receipt) (.ok _) => ∃ there ∈ file, there.unitSha256 = receipt.unitSha256
  | .done (some _) (.error e) => e = duplicateExecution
  | _ => True

/-- **The invariant of undisputed runs.** -/
structure Consistent (job : Job) (w : World ι) : Prop where
  file_valid : (∀ there ∈ w.files.receipt,
    validateUnitReceipt there job.schedule job.unit = .ok ()) ∨ ∀ i, (w.phases i).Idle
  phase : ∀ i, PhaseOk job w.files.receipt (w.phases i)
  agree : ∀ i j receipt other, w.phases i = .replaceCommit receipt →
    w.phases j = .replaceCommit other → other.unitSha256 = receipt.unitSha256

variable {job : Job} {options : Options} {outside : Surroundings} {files : UnitFiles}

theorem phaseOk_after {file : Option UnitReceipt} {α : Type} {x : Checked α} {next : α → Phase}
    (h : ∀ a, x = .ok a → PhaseOk job file (next a)) : PhaseOk job file (.after x next) :=
  Phase.after_rule (fun _ => trivial) h

theorem phaseOk_ite {file : Option UnitReceipt} {c : Prop} [Decidable c] {p q : Phase}
    (hp : PhaseOk job file p) (hq : PhaseOk job file q) :
    PhaseOk job file (if c then p else q) :=
  iteInduction (fun _ => hp) fun _ => hq

/-- A step that is no replacement leaves the receipt as it is. -/
theorem step_receipt {phase : Phase} (h : ∀ receipt, phase ≠ .replaceCommit receipt) :
    (step job options outside files phase).1.receipt = files.receipt := by
  cases phase with
  | replaceCommit receipt => exact absurd rfl (h receipt)
  | _ => rfl

theorem checkRetained_ok {receipt retained committed : UnitReceipt}
    (h : checkRetained job receipt retained = .ok committed) :
    retained.unitSha256 = receipt.unitSha256 := by
  simp only [checkRetained, bind_ok, raiseIf_ok, pure_ok] at h
  obtain ⟨_, _, _, hsame, _⟩ := h
  exact not_not.mp hsame

/-- On a valid receipt `_commit_unit` raises one exception only. -/
theorem checkRetained_error {receipt retained : UnitReceipt} {e : PlattError}
    (hvalid : validateUnitReceipt retained job.schedule job.unit = .ok ())
    (h : checkRetained job receipt retained = .error e) : e = duplicateExecution := by
  rw [checkRetained, hvalid] at h
  by_cases hsame : retained.unitSha256 = receipt.unitSha256
  · have hpass : raiseIf (retained.unitSha256 ≠ receipt.unitSha256)
        "duplicate execution of a unit produced a different semantic digest" = .ok () :=
      raiseIf_ok.mpr (not_not.mpr hsame)
    simp only [hpass] at h
    cases h
  · have hraise : raiseIf (retained.unitSha256 ≠ receipt.unitSha256)
        "duplicate execution of a unit produced a different semantic digest" =
          .error duplicateExecution := if_pos hsame
    simp only [hraise] at h
    cases h
    rfl

/-- **A worker's own step keeps what holds of it**, as long as the step is no replacement. -/
theorem phaseOk_step {phase : Phase}
    (hvalid : (∀ there ∈ files.receipt, validateUnitReceipt there job.schedule job.unit = .ok ()) ∨
      phase.Idle)
    (h : PhaseOk job files.receipt phase) (hreplace : ∀ receipt, phase ≠ .replaceCommit receipt) :
    PhaseOk job files.receipt (step job options outside files phase).2 := by
  cases phase with
  | start => exact phaseOk_ite trivial (phaseOk_ite trivial trivial)
  | readReceipt =>
      simp only [step]
      split
      · trivial
      · exact phaseOk_after fun _ _ => trivial
  | testCheckpoint => exact phaseOk_ite trivial trivial
  | readCheckpoint =>
      simp only [step]
      split
      · trivial
      · exact phaseOk_after fun _ _ => trivial
  | loop progress =>
      refine phaseOk_ite trivial (phaseOk_after fun receipt hbuilt => ?_)
      exact phaseOk_ite (buildUnitReceipt_valid hbuilt) (buildUnitReceipt_valid hbuilt)
  | reading stream =>
      simp only [step, readLine]
      split
      · exact phaseOk_after fun _ _ => trivial
      · refine phaseOk_ite trivial (phaseOk_ite ?_ trivial)
        exact phaseOk_after fun _ _ => trivial
  | storeProgress stream merged => trivial
  | renewLease stream => trivial
  | lineRead stream =>
      exact phaseOk_ite (phaseOk_after fun _ _ => trivial) (phaseOk_ite trivial trivial)
  | storePreempted merged segments => trivial
  | writeLog receipt logParts => exact h
  | testCommit receipt =>
      simp only [step]
      cases hthere : files.receipt with
      | none => exact ⟨h, fun there hin => by cases hin⟩
      | some there => exact ⟨h, by simp⟩
  | readCommit receipt =>
      simp only [step]
      cases hthere : files.receipt with
      | none => exact absurd hthere h.2
      | some there =>
          have hok : validateUnitReceipt there job.schedule job.unit = .ok () :=
            hvalid.elim (fun hall => hall there hthere) fun hidle => hidle.elim
          dsimp only
          split
          · rename_i committed hcheck
            exact ⟨there, rfl, checkRetained_ok hcheck⟩
          · rename_i e hcheck
            exact checkRetained_error hok hcheck
  | replaceCommit receipt => exact absurd rfl (hreplace receipt)
  | unlinkCheckpoint receipt committed => exact h
  | releaseUnit receipt committed => exact h
  | done computed result => exact h

/-- **Another worker's replacement keeps what holds of a worker.** -/
theorem phaseOk_replace {file : Option UnitReceipt} {phase : Phase} {receipt : UnitReceipt}
    (h : PhaseOk job file phase) (hfile : ∀ there ∈ file, there.unitSha256 = receipt.unitSha256)
    (hagree : ∀ other, phase = .replaceCommit other → other.unitSha256 = receipt.unitSha256) :
    PhaseOk job (some receipt) phase := by
  have hthere : ∀ other : UnitReceipt, (∃ there ∈ file, there.unitSha256 = other.unitSha256) →
      ∃ there ∈ some receipt, there.unitSha256 = other.unitSha256 := by
    intro other hother
    obtain ⟨there, hin, hsame⟩ := hother
    exact ⟨receipt, rfl, (hfile there hin).symm.trans hsame⟩
  cases phase with
  | readCommit other => exact ⟨h.1, by simp⟩
  | replaceCommit other =>
      refine ⟨h.1, fun there hin => ?_⟩
      rw [← Option.some.inj hin]
      exact (hagree other rfl).symm
  | unlinkCheckpoint other committed => exact hthere other h
  | releaseUnit other committed => exact hthere other h
  | done computed result =>
      cases computed with
      | none => trivial
      | some other =>
          cases result with
          | ok committed => exact hthere other h
          | error e => exact h
  | _ => exact h

/-! ## Undisputed runs -/

variable {options : ι → Options} {w w' : World ι}

theorem World.step_self (i : ι) : (w.step job options i outside).phases i =
    (Platt.step job (options i) outside w.files (w.phases i)).2 := Function.update_self ..

theorem World.step_of_ne {i j : ι} (h : j ≠ i) :
    (w.step job options i outside).phases j = w.phases j := Function.update_of_ne h ..

/-- A call comes to a replacement from its test for a receipt only. -/
theorem step_ne_replace {o : Options} {phase : Phase} {receipt : UnitReceipt}
    (h : (step job o outside files phase).2 = .replaceCommit receipt) :
    phase = .testCommit receipt ∧ files.receipt = none := by
  have hafter : ∀ {α : Type} {x : Checked α} {next : α → Phase},
      (∀ a, next a ≠ .replaceCommit receipt) → Phase.after x next ≠ .replaceCommit receipt :=
    fun hnext => @Phase.after_rule (· ≠ .replaceCommit receipt) _ _ _ (fun _ => nofun)
      fun a _ => hnext a
  have hite : ∀ {c : Prop} [Decidable c] {p q : Phase}, p ≠ .replaceCommit receipt →
      q ≠ .replaceCommit receipt → (if c then p else q) ≠ .replaceCommit receipt :=
    fun hp hq => by
      split
      · exact hp
      · exact hq
  cases phase with
  | start => exact absurd h (hite nofun (hite nofun nofun))
  | readReceipt =>
      simp only [step] at h
      split at h
      · cases h
      · exact absurd h (hafter fun _ => nofun)
  | testCheckpoint => exact absurd h (hite nofun nofun)
  | readCheckpoint =>
      simp only [step] at h
      split at h
      · cases h
      · exact absurd h (hafter fun _ => nofun)
  | loop progress => exact absurd h (hite nofun (hafter fun _ => hite nofun nofun))
  | reading stream =>
      simp only [step, readLine] at h
      split at h
      · exact absurd h (hafter fun _ => nofun)
      · exact absurd h (hite nofun (hite (hafter fun _ => nofun) nofun))
  | lineRead stream => exact absurd h (hite (hafter fun _ => nofun) (hite nofun nofun))
  | testCommit other =>
      simp only [step] at h
      cases hthere : files.receipt with
      | none =>
          rw [hthere] at h
          cases h
          exact ⟨rfl, rfl⟩
      | some there =>
          rw [hthere] at h
          cases h
  | readCommit other =>
      simp only [step] at h
      split at h
      · cases h
      · split at h <;> cases h
  | _ => cases h

/-- A worker about to replace was about to, or has just found no receipt. -/
theorem World.step_replacing {i j : ι} {receipt : UnitReceipt}
    (h : (w.step job options i outside).phases j = .replaceCommit receipt) :
    j ≠ i ∧ w.phases j = .replaceCommit receipt ∨
      j = i ∧ w.phases i = .testCommit receipt ∧ w.files.receipt = none := by
  by_cases hj : j = i
  · rw [hj, World.step_self] at h
    exact Or.inr ⟨hj, step_ne_replace h⟩
  · rw [World.step_of_ne hj] at h
    exact Or.inl ⟨hj, h⟩

/-- The receipts about to be put in place keep agreeing. -/
theorem agree_step {i : ι} (hw : Consistent job w) (h : Undisputed w i) :
    ∀ j k receipt other, (w.step job options i outside).phases j = .replaceCommit receipt →
      (w.step job options i outside).phases k = .replaceCommit other →
      other.unitSha256 = receipt.unitSha256 := by
  intro j k receipt other hj hk
  rcases World.step_replacing hj with ⟨_, hj'⟩ | ⟨rfl, hj', hnone⟩
  · rcases World.step_replacing hk with ⟨_, hk'⟩ | ⟨rfl, hk', hnone⟩
    · exact hw.agree j k receipt other hj' hk'
    · exact (h other hk' hnone j receipt hj').symm
  · rcases World.step_replacing hk with ⟨_, hk'⟩ | ⟨rfl, hk', _⟩
    · exact h receipt hj' hnone k other hk'
    · rw [hj', Phase.testCommit.injEq] at hk'
      rw [hk']

/-- A worker that finds a receipt at its start goes no further than to read it. -/
theorem idle_step (job : Job) (o : Options) (outside : Surroundings) (files : UnitFiles)
    {phase : Phase} (h : phase.Idle) :
    files.receipt = none ∨ (step job o outside files phase).2.Idle := by
  cases phase with
  | start =>
      cases hthere : files.receipt with
      | none => exact Or.inl rfl
      | some there =>
          refine Or.inr ?_
          simp only [step, hthere]
          trivial
  | readReceipt =>
      refine Or.inr ?_
      simp only [step]
      split
      · trivial
      · exact Phase.after_rule (fun _ => trivial) fun _ _ => trivial
  | done computed result => exact Or.inr h
  | _ => exact h.elim

/-- **One undisputed step keeps the invariant.** -/
theorem consistent_step (hw : Consistent job w) (h : Advances job options Undisputed w w') :
    Consistent job w' := by
  obtain ⟨i, outside, hundisputed, rfl⟩ := h
  by_cases hreplace : ∃ receipt, w.phases i = .replaceCommit receipt
  · obtain ⟨receipt, hi⟩ := hreplace
    obtain ⟨hvalid, hfile⟩ : validateUnitReceipt receipt job.schedule job.unit = .ok () ∧
        ∀ there ∈ w.files.receipt, there.unitSha256 = receipt.unitSha256 := by
      have hown := hw.phase i
      rwa [hi] at hown
    have hput : (w.step job options i outside).files.receipt = some receipt := by
      rw [World.step, hi]
      rfl
    refine ⟨Or.inl fun there hin => ?_, fun j => ?_, agree_step hw hundisputed⟩
    · rw [hput] at hin
      rw [← Option.some.inj hin]
      exact hvalid
    · rw [hput]
      by_cases hj : j = i
      · rw [hj, World.step_self, hi]
        exact ⟨receipt, rfl, rfl⟩
      · rw [World.step_of_ne hj]
        exact phaseOk_replace (hw.phase j) hfile fun other => hw.agree i j receipt other hi
  · have hno : ∀ receipt, w.phases i ≠ .replaceCommit receipt :=
      fun receipt hi => hreplace ⟨receipt, hi⟩
    have hkept : (w.step job options i outside).files.receipt = w.files.receipt := step_receipt hno
    refine ⟨?_, fun j => ?_, agree_step hw hundisputed⟩
    · rw [hkept]
      rcases hw.file_valid with hvalid | hidle
      · exact Or.inl hvalid
      · refine (idle_step job (options i) outside w.files (hidle i)).imp (fun hnone there hin => ?_) fun hnext j => ?_
        · rw [hnone] at hin
          cases hin
        · by_cases hj : j = i
          · rw [hj, World.step_self]
            exact hnext
          · rw [World.step_of_ne hj]
            exact hidle j
    · rw [hkept]
      by_cases hj : j = i
      · rw [hj, World.step_self]
        exact phaseOk_step (hw.file_valid.imp_right fun hidle => hidle i) (hw.phase i) hno
      · rw [World.step_of_ne hj]
        exact hw.phase j

omit [DecidableEq ι] in
theorem consistent_start (h : ∀ i, w.phases i = .start) : Consistent job w := by
  refine ⟨Or.inr fun i => ?_, fun i => ?_, fun i j receipt other hi _ => ?_⟩
  · rw [h i]
    trivial
  · rw [h i]
    trivial
  · rw [h i] at hi
    cases hi

/-- **Undisputed runs keep the invariant.** -/
theorem consistent_run (hw : Consistent job w) (h : Run job options Undisputed w w') :
    Consistent job w' := by
  induction h with
  | refl => exact hw
  | tail _ hstep ih => exact consistent_step ih hstep

/-- One undisputed step leaves the digest of a receipt that is there as it is. -/
theorem digest_step (hw : Consistent job w) (h : Advances job options Undisputed w w') :
    ∀ there ∈ w.files.receipt, ∃ later ∈ w'.files.receipt,
      later.unitSha256 = there.unitSha256 := by
  obtain ⟨i, outside, _, rfl⟩ := h
  intro there hin
  by_cases hreplace : ∃ receipt, w.phases i = .replaceCommit receipt
  · obtain ⟨receipt, hi⟩ := hreplace
    have hown := hw.phase i
    rw [hi] at hown
    refine ⟨receipt, ?_, (hown.2 there hin).symm⟩
    rw [World.step, hi]
    rfl
  · refine ⟨there, ?_, rfl⟩
    rw [World.step, step_receipt fun receipt hi => hreplace ⟨receipt, hi⟩]
    exact hin

/-- **What is committed stays, and disagreement is reported.** In an undisputed run of any number
of workers the receipt that is there keeps its digest, and of two finished calls that have computed
different digests at least one has raised. -/
theorem undisputed_run_detects (hstart : ∀ i, w.phases i = .start)
    {w₁ w₂ : World ι} (h₁ : Run job options Undisputed w w₁) (h₂ : Run job options Undisputed w₁ w₂) :
    (∀ there ∈ w₁.files.receipt, ∃ later ∈ w₂.files.receipt,
      later.unitSha256 = there.unitSha256) ∧
    ∀ i j receipt other result result', w₂.phases i = .done (some receipt) result →
      w₂.phases j = .done (some other) result' → receipt.unitSha256 ≠ other.unitSha256 →
        result = .error duplicateExecution ∨ result' = .error duplicateExecution := by
  have hw₁ := consistent_run (consistent_start hstart) h₁
  refine ⟨?_, fun i j receipt other result result' hi hj hne => ?_⟩
  · induction h₂ with
    | refl => exact fun there hin => ⟨there, hin, rfl⟩
    | tail hrun hstep ih =>
        intro there hin
        obtain ⟨middle, hmiddle, hsame⟩ := ih there hin
        obtain ⟨later, hlater, hsame'⟩ := digest_step (consistent_run hw₁ hrun) hstep middle hmiddle
        exact ⟨later, hlater, hsame'.trans hsame⟩
  · have hw₂ := consistent_run hw₁ h₂
    have hpi := hw₂.phase i
    have hpj := hw₂.phase j
    rw [hi] at hpi
    rw [hj] at hpj
    cases result with
    | error e => exact Or.inl (congrArg _ hpi)
    | ok committed =>
        cases result' with
        | error e => exact Or.inr (congrArg _ hpj)
        | ok committed' =>
            -- both have found their digest in the one receipt that is there
            obtain ⟨there, hin, hsame⟩ := hpi
            obtain ⟨there', hin', hsame'⟩ := hpj
            rw [Option.mem_def.mp hin, Option.mem_def, Option.some.injEq] at hin'
            rw [← hin'] at hsame'
            exact absurd (hsame.symm.trans hsame') hne

/-! ## Two workers whose runners disagree -/

def oneBlockJob : Job where
  schedule := oneBlock
  unit := 0
  first := 0
  upper := 1
  range := rfl

def freshOptions : Options where
  checkpointBlocks := 32
  retainLog := false
  timed := false
  resume := false
  checkpointBlocks_pos := by decide

/-- The line in which the runner finds the zeros of the one block. -/
def oneBlockSuccess : Str :=
  ("All 3 zeros found in region 10000000000.000000 to 10000001008.000000 using stat points.").toList

/-- A runner that prints the two lines of the one block. -/
def oneBlockRunner (looking : Str) : Surroundings where
  output := ⟨[looking, oneBlockSuccess], [], 0⟩
  elapsed := 0
  stopRequested := false
  deadlinePassed := false

/-- A line that makes the runner's text one that is accepted, with these counts. -/
structure Prints (looking : Str) (count : Nat) : Prop where
  clean : failureToken looking = none
  no_success : isSuccess looking = false
  parsed : (parseTranscript (joinLines [looking, oneBlockSuccess]) 0 1).toOption.map
    Parsed.records = some [oneBlockRecord count]

/-- What the two runners print, by evaluation. -/
theorem prints_both : Prints "looking for 8-5=3 zeros".toList 5
    ∧ Prints "looking for 9-6=3 zeros".toList 6
    ∧ failureToken oneBlockSuccess = none ∧ isSuccess oneBlockSuccess = true := by
  refine ⟨⟨?_, ?_, ?_⟩, ⟨?_, ?_, ?_⟩, ?_, ?_⟩ <;> decide +kernel

theorem prints_five : Prints "looking for 8-5=3 zeros".toList 5 := prints_both.1

theorem prints_six : Prints "looking for 9-6=3 zeros".toList 6 := prints_both.2.1

theorem oneBlockSuccess_clean :
    failureToken oneBlockSuccess = none ∧ isSuccess oneBlockSuccess = true := prints_both.2.2

/-- A worker's step in a world in which it alone has moved. -/
theorem advances_update {condition : World ι → ι → Prop} {f : ι → Phase} {i : ι}
    {files' : UnitFiles} {phase phase' : Phase}
    (hcondition : condition ⟨files, Function.update f i phase⟩ i)
    (h : step job (options i) outside files phase = (files', phase')) :
    Advances job options condition ⟨files, Function.update f i phase⟩
      ⟨files', Function.update f i phase'⟩ := by
  refine ⟨i, outside, hcondition, ?_⟩
  rw [World.step]
  dsimp only
  rw [Function.update_self, h, Function.update_idem]

/-- A call that has all its records and keeps no log comes to its commit. -/
theorem loopHead_built {o : Options} {progress : Progress} {receipt : UnitReceipt}
    (hfull : ¬ ((progress.records.length : Int) < job.upper - job.first))
    (hbuilt : buildUnitReceipt job.schedule job.unit progress.records progress.segments =
      .ok receipt) (hlog : o.retainLog = false) :
    loopHead job o outside progress = .testCommit receipt := by
  rw [loopHead, if_neg hfull, hbuilt]
  simp [Phase.after, hlog]

/-- A step of a call that has not yet computed its receipt. -/
def SoloStep (job : Job) (o : Options) (outside : Surroundings) (s s' : UnitFiles × Phase) : Prop :=
  s.2.computed = none ∧ s' = step job o outside s.1 s.2

/-- What a call on the one block has read, and what is left. -/
def oneBlockStream (seen pending : List Str) (committed : Int) : Stream where
  base := ⟨[], [], []⟩
  firstBlock := 0
  blockCount := 1
  seen := seen
  pending := pending
  stderr := []
  returncode := 0
  committedBlocks := committed

theorem soloStep_of_eq {o : Options} {files' : UnitFiles} {phase phase' : Phase}
    (hphase : phase.computed = none) (h : step job o outside files phase = (files', phase')) :
    SoloStep job o outside (files, phase) (files', phase') := ⟨hphase, h.symm⟩

/-- A call on the one block reads its first line. -/
theorem oneBlock_firstLine {looking : Str} {count : Nat} (hprints : Prints looking count)
    (hnone : files.receipt = none) :
    Relation.ReflTransGen (SoloStep oneBlockJob freshOptions (oneBlockRunner looking))
      (files, .start) (files, .lineRead (oneBlockStream [looking] [oneBlockSuccess] 0)) := by
  have hstart : step oneBlockJob freshOptions (oneBlockRunner looking) files .start =
      (files, .loop ⟨[], [], []⟩) := by
    simp [step, hnone, freshOptions]
  have hlaunch : step oneBlockJob freshOptions (oneBlockRunner looking) files (.loop ⟨[], [], []⟩) =
      (files, .reading (oneBlockStream [] [looking, oneBlockSuccess] 0)) := rfl
  have hread : step oneBlockJob freshOptions (oneBlockRunner looking) files
      (.reading (oneBlockStream [] [looking, oneBlockSuccess] 0)) =
        (files, .lineRead (oneBlockStream [looking] [oneBlockSuccess] 0)) := by
    simp [step, readLine, oneBlockStream, hprints.clean, hprints.no_success]
  exact ((Relation.ReflTransGen.single (soloStep_of_eq rfl hstart)).tail
    (soloStep_of_eq rfl hlaunch)).tail (soloStep_of_eq rfl hread)

/-- A call on the one block comes to its commit with the counts its runner prints. -/
theorem oneBlock_steps {looking : Str} {count : Nat} (hprints : Prints looking count)
    (hcount : count < 2 ^ 32) (hnone : files.receipt = none) :
    ∃ receipt : UnitReceipt, receipt.unitSha256 = sha256Hex (oneBlockUnitBytes count) ∧
      validateUnitReceipt receipt oneBlock 0 = .ok () ∧
      Relation.ReflTransGen (SoloStep oneBlockJob freshOptions (oneBlockRunner looking))
        (files, .start) (files, .testCommit receipt) := by
  obtain ⟨parsed, hparsed, hrecords⟩ : ∃ parsed,
      parseTranscript (joinLines [looking, oneBlockSuccess]) 0 1 = .ok parsed ∧
        parsed.records = [oneBlockRecord count] := by
    have h := hprints.parsed
    cases hparse : parseTranscript (joinLines [looking, oneBlockSuccess]) 0 1 with
    | error e =>
        rw [hparse] at h
        cases h
    | ok parsed =>
        rw [hparse] at h
        exact ⟨parsed, rfl, Option.some.inj h⟩
  let segment : Segment := ⟨0, 1, textSha256 (joinLines [looking, oneBlockSuccess]), 0, false⟩
  obtain ⟨receipt, hbuilt, _, _, _, hdigest⟩ := oneBlock_built hcount [segment]
  obtain ⟨hclean, hsuccess⟩ := oneBlockSuccess_clean
  have hsecond : step oneBlockJob freshOptions (oneBlockRunner looking) files
      (.reading (oneBlockStream [looking] [oneBlockSuccess] 0)) =
        (files, .lineRead (oneBlockStream [looking, oneBlockSuccess] [] 1)) := by
    simp [step, readLine, oneBlockStream, hclean, hsuccess, freshOptions]
  have hgo : ∀ s, step oneBlockJob freshOptions (oneBlockRunner looking) files (.lineRead s) =
      (files, .reading s) := fun _ => rfl
  have hend : step oneBlockJob freshOptions (oneBlockRunner looking) files
      (.reading (oneBlockStream [looking, oneBlockSuccess] [] 1)) =
        (files, .loop ⟨[oneBlockRecord count], [segment], []⟩) := by
    have hsegment : finishSegment oneBlockJob freshOptions 0
        (oneBlockStream [looking, oneBlockSuccess] [] 1) =
          .ok ⟨[oneBlockRecord count], [segment], []⟩ := by
      simp only [finishSegment, mergeRecords, bind_ok, raiseIf_ok, pure_ok]
      refine ⟨(), not_not.mpr rfl, (), not_not.mpr rfl, parsed, hparsed, _, ⟨(), ?_, rfl⟩, ?_⟩
      · rw [hrecords]
        rfl
      · rw [hrecords]
        rfl
    show (files, Phase.after (finishSegment oneBlockJob freshOptions 0 _) Phase.loop) = _
    rw [hsegment]
    rfl
  have hbuild : step oneBlockJob freshOptions (oneBlockRunner looking) files
      (.loop ⟨[oneBlockRecord count], [segment], []⟩) = (files, .testCommit receipt) := by
    have hfull : ¬ (([oneBlockRecord count].length : Int) < oneBlockJob.upper - oneBlockJob.first) := by
      simp [oneBlockJob]
    exact congrArg (Prod.mk files) (loopHead_built hfull hbuilt rfl)
  refine ⟨receipt, hdigest, buildUnitReceipt_valid hbuilt, ?_⟩
  have hsecondLine := ((oneBlock_firstLine hprints hnone).tail (soloStep_of_eq rfl (hgo _))).tail
    (soloStep_of_eq rfl hsecond)
  exact ((hsecondLine.tail (soloStep_of_eq rfl (hgo _))).tail (soloStep_of_eq rfl hend)).tail
    (soloStep_of_eq rfl hbuild)

/-- A worker on the one block comes to its commit while the others stand still. -/
theorem oneBlock_commits {condition : World ι → ι → Prop} {i : ι} {f : ι → Phase} {looking : Str}
    {count : Nat} (hprints : Prints looking count) (hcount : count < 2 ^ 32)
    (hnone : files.receipt = none)
    (hcondition : ∀ files phase, phase.computed = none →
      condition ⟨files, Function.update f i phase⟩ i) :
    ∃ receipt : UnitReceipt, receipt.unitSha256 = sha256Hex (oneBlockUnitBytes count) ∧
      validateUnitReceipt receipt oneBlock 0 = .ok () ∧
      Run oneBlockJob (fun _ => freshOptions) condition ⟨files, Function.update f i .start⟩
        ⟨files, Function.update f i (.testCommit receipt)⟩ := by
  obtain ⟨receipt, hdigest, hvalid, hsteps⟩ := oneBlock_steps hprints hcount hnone
  refine ⟨receipt, hdigest, hvalid, ?_⟩
  refine hsteps.lift (fun s : UnitFiles × Phase => World.mk s.1 (Function.update f i s.2)) ?_
  intro s s' hstep
  exact advances_update (hcondition s.1 s.2 hstep.1) hstep.2.symm

/-! ## The digests of the two receipts

They are different, which takes an evaluation: of the digest of the schedule, and of the digests of
the records and of the unit with either count. -/

/-- A hexadecimal digit as a code point. -/
def hexCode (d : Nat) : CodePoint := Fin.ofNat _ (if d < 10 then 48 + d else 87 + d)

theorem hexCode_eq {d : Nat} (h : d < 16) : hexCode d = Text.ofChar (Bytes.hexDigit d) := by
  interval_cases d <;> decide

/-- `sha256Hex` by the evaluator. -/
def evalHex (bytes : Bytes) : Text :=
  (Receipt.NatSha256.hashWords bytes).toBytes.nibbles.map hexCode

theorem sha256Hex_eq_evalHex (bytes : Bytes) : sha256Hex bytes = evalHex bytes := by
  rw [sha256Hex, Sha256.hexdigest, Receipt.NatSha256.digest_eq_toBytes, Bytes.hex, Text.ofString,
    String.toList_ofList, Bytes.hexChars, List.map_map, evalHex]
  exact List.map_congr_left fun d hd => (hexCode_eq (Bytes.isNumeral_nibbles _ d hd)).symm

def oneBlockScheduleSha256 : Text :=
  Text.ofString "e30f546f9cbeba2f6e3adb418216b776e13e3b051e4a4fae149e4da4d9d39cd6"

theorem oneBlock_scheduleSha256 : oneBlock.scheduleSha256 = oneBlockScheduleSha256 := by
  have heval : evalHex (SCHEDULE_DOMAIN ++ (Json.dumpsAscii oneBlockParameters.body).utf8) =
      oneBlockScheduleSha256 := by decide +kernel
  have hdigest := oneBlock.digested
  have hparameters : oneBlock.toScheduleParameters = oneBlockParameters := rfl
  rw [hparameters, digest, canonical_of_fits oneBlockParameters_prints, bind_ok] at hdigest
  obtain ⟨bytes, hbytes, hhash⟩ := hdigest
  rw [Except.ok.injEq] at hbytes
  rw [pure_ok] at hhash
  rw [← hhash, ← hbytes, sha256Hex_eq_evalHex, heval]

theorem oneBlock_digests_ne :
    sha256Hex (oneBlockUnitBytes 5) ≠ sha256Hex (oneBlockUnitBytes 6) := by
  simp only [oneBlockUnitBytes, unitSemantic, oneBlock_scheduleSha256, sha256Hex_eq_evalHex]
  decide +kernel

/-! ## The two runs -/

def noFiles : UnitFiles := ⟨none, none, none, false⟩

/-- Where two workers stand. -/
def pair (p q : Phase) : Bool → Phase
  | false => p
  | true => q

theorem update_pair_false (p q p' : Phase) : Function.update (pair p q) false p' = pair p' q := by
  funext b
  cases b <;> rfl

theorem update_pair_true (p q q' : Phase) : Function.update (pair p q) true q' = pair p q' := by
  funext b
  cases b <;> rfl

/-- The first of two workers takes a step. -/
theorem advances_false {condition : World Bool → Bool → Prop} {options : Bool → Options}
    {files' : UnitFiles} {p p' q : Phase} (hcondition : condition ⟨files, pair p q⟩ false)
    (h : step job (options false) outside files p = (files', p')) :
    Advances job options condition ⟨files, pair p q⟩ ⟨files', pair p' q⟩ := by
  have hupdate := @advances_update _ _ job outside files options condition (pair p q) false files'
    p p'
  rw [update_pair_false, update_pair_false] at hupdate
  exact hupdate hcondition h

/-- The second of two workers takes a step. -/
theorem advances_true {condition : World Bool → Bool → Prop} {options : Bool → Options}
    {files' : UnitFiles} {p q q' : Phase} (hcondition : condition ⟨files, pair p q⟩ true)
    (h : step job (options true) outside files q = (files', q')) :
    Advances job options condition ⟨files, pair p q⟩ ⟨files', pair p q'⟩ := by
  have hupdate := @advances_update _ _ job outside files options condition (pair p q) true files'
    q q'
  rw [update_pair_true, update_pair_true] at hupdate
  exact hupdate hcondition h

/-- Both workers come to their commit before either has made it. -/
theorem both_commit {condition : World Bool → Bool → Prop}
    (hcondition : ∀ w i, (w.phases i).computed = none → condition w i) :
    ∃ five six : UnitReceipt, five.unitSha256 ≠ six.unitSha256 ∧
      validateUnitReceipt five oneBlock 0 = .ok () ∧
      Run oneBlockJob (fun _ => freshOptions) condition ⟨noFiles, pair .start .start⟩
        ⟨noFiles, pair (.testCommit five) (.testCommit six)⟩ := by
  have hcomputed : ∀ (f : Bool → Phase) i files phase, phase.computed = none →
      condition ⟨files, Function.update f i phase⟩ i := by
    intro f i files phase hphase
    refine hcondition _ i ?_
    dsimp only
    rwa [Function.update_self]
  obtain ⟨five, hfive, hvalid, hrun⟩ := @oneBlock_commits Bool _ noFiles condition false
    (pair .start .start) _ _ prints_five (by decide) rfl (hcomputed _ _)
  obtain ⟨six, hsix, _, hrun'⟩ := @oneBlock_commits Bool _ noFiles condition true
    (pair (.testCommit five) .start) _ _ prints_six (by decide) rfl (hcomputed _ _)
  rw [update_pair_false, update_pair_false] at hrun
  rw [update_pair_true, update_pair_true] at hrun'
  refine ⟨five, six, ?_, hvalid, hrun.trans hrun'⟩
  rw [hfive, hsix]
  exact oneBlock_digests_ne

/-- The files of a unit after a worker has committed. -/
def UnitFiles.committed (files : UnitFiles) (receipt : UnitReceipt) : UnitFiles :=
  { files with receipt := some receipt, checkpoint := none, lease := false }

/-- A worker that has found no receipt puts its own in place, cleans up and ends. -/
theorem replace_run {condition : World ι → ι → Prop} {f : ι → Phase} {i : ι} (receipt : UnitReceipt)
    (hcondition : ∀ files phase, (∀ other, phase ≠ .testCommit other) →
      condition ⟨files, Function.update f i phase⟩ i) :
    Run job options condition ⟨files, Function.update f i (.replaceCommit receipt)⟩
      ⟨files.committed receipt, Function.update f i (.done (some receipt) (.ok receipt))⟩ := by
  have outside := oneBlockRunner []
  have hreplace := @advances_update _ _ job outside files options condition f i _
    (.replaceCommit receipt) _ (hcondition _ _ fun _ h => by cases h) rfl
  have hunlink := @advances_update _ _ job outside { files with receipt := some receipt } options
    condition f i _ (.unlinkCheckpoint receipt receipt) _ (hcondition _ _ fun _ h => by cases h) rfl
  have hrelease := @advances_update _ _ job outside
    { files with receipt := some receipt, checkpoint := none } options condition f i _
    (.releaseUnit receipt receipt) _ (hcondition _ _ fun _ h => by cases h) rfl
  exact ((Relation.ReflTransGen.single hreplace).tail hunlink).tail hrelease

/-- A worker that finds a receipt with another digest raises. -/
theorem reject_run {condition : World ι → ι → Prop} {f : ι → Phase} {i : ι}
    {receipt retained : UnitReceipt} (hthere : files.receipt = some retained)
    (hvalid : validateUnitReceipt retained job.schedule job.unit = .ok ())
    (hne : retained.unitSha256 ≠ receipt.unitSha256)
    (hcondition : ∀ phase, condition ⟨files, Function.update f i phase⟩ i) :
    Run job options condition ⟨files, Function.update f i (.testCommit receipt)⟩
      ⟨files, Function.update f i (.done (some receipt) (.error duplicateExecution))⟩ := by
  have outside := oneBlockRunner []
  have hcheck : checkRetained job receipt retained = .error duplicateExecution := by
    rw [checkRetained, hvalid]
    exact congrArg (fun x : Checked Unit => x >>= fun _ => pure retained) (if_pos hne)
  have htest : step job (options i) outside files (.testCommit receipt) =
      (files, .readCommit receipt) := by
    simp [step, hthere]
  have hread : step job (options i) outside files (.readCommit receipt) =
      (files, .done (some receipt) (.error duplicateExecution)) := by
    simp [step, hthere, hcheck]
  exact (Relation.ReflTransGen.single (advances_update (hcondition _) htest)).tail
    (advances_update (hcondition _) hread)

/-- The second worker tests for a receipt when the first one has put its own in place. -/
theorem undisputed_run_detects_oneBlock : ∃ five six : UnitReceipt, ∃ w₁ w₂ : World Bool,
    Run oneBlockJob (fun _ => freshOptions) Undisputed ⟨noFiles, pair .start .start⟩ w₁ ∧
    Run oneBlockJob (fun _ => freshOptions) Undisputed w₁ w₂ ∧
    w₁.files.receipt = some five ∧
    (∃ later ∈ w₂.files.receipt, later.unitSha256 = five.unitSha256) ∧
    w₂.phases false = .done (some five) (.ok five) ∧
    w₂.phases true = .done (some six) (.error duplicateExecution) := by
  obtain ⟨five, six, hne, hvalid, hrun⟩ := @both_commit Undisputed fun w i hnone receipt hi => by
    rw [hi] at hnone
    cases hnone
  -- nobody is about to replace when the first worker tests
  have hundisputed : Undisputed ⟨noFiles, pair (.testCommit five) (.testCommit six)⟩ false := by
    intro receipt _ _ j other hj
    cases j <;> cases hj
  have htest := hrun.tail (@advances_false _ (oneBlockRunner []) noFiles _ _ noFiles _
    (.replaceCommit five) _ hundisputed rfl)
  have hfirst := @replace_run Bool _ oneBlockJob noFiles (fun _ => freshOptions) Undisputed
    (pair .start (.testCommit six)) false five fun files phase hphase receipt hi => by
      have hphase' : phase = .testCommit receipt := by rwa [update_pair_false] at hi
      exact absurd hphase' (hphase receipt)
  have hsecond := @reject_run Bool _ oneBlockJob (noFiles.committed five) (fun _ => freshOptions)
    Undisputed (pair (.done (some five) (.ok five)) .start) true six five rfl hvalid hne
    fun phase receipt _ hnone => by cases hnone
  rw [update_pair_false, update_pair_false] at hfirst
  rw [update_pair_true, update_pair_true] at hsecond
  have hrun₁ := htest.trans hfirst
  have hstart : ∀ i, (World.mk noFiles (pair .start .start)).phases i = .start := by
    intro i
    cases i <;> rfl
  refine ⟨five, six, _, _, hrun₁, hsecond, rfl, ?_, rfl, rfl⟩
  exact (undisputed_run_detects hstart hrun₁ hsecond).1 five rfl

/-- **A receipt is overwritten.** Both workers find no receipt; the first one commits and ends,
then the second one puts a receipt with another digest in its place and ends as well. -/
theorem commit_overwritten : ∃ five six : UnitReceipt, ∃ w₁ w₂ : World Bool,
    Run oneBlockJob (fun _ => freshOptions) (fun _ _ => True) ⟨noFiles, pair .start .start⟩ w₁ ∧
    Run oneBlockJob (fun _ => freshOptions) (fun _ _ => True) w₁ w₂ ∧
    w₁.files.receipt = some five ∧ w₂.files.receipt = some six ∧
    five.unitSha256 ≠ six.unitSha256 ∧
    w₂.phases false = .done (some five) (.ok five) ∧
    w₂.phases true = .done (some six) (.ok six) := by
  obtain ⟨five, six, hne, _, hrun⟩ := @both_commit (fun _ _ => True) fun _ _ _ => trivial
  have htests := (hrun.tail (@advances_false _ (oneBlockRunner []) noFiles _ _ noFiles _
    (.replaceCommit five) _ trivial rfl)).tail (@advances_true _ (oneBlockRunner []) noFiles _ _
      noFiles _ _ (.replaceCommit six) trivial rfl)
  have hfirst := @replace_run Bool _ oneBlockJob noFiles (fun _ => freshOptions) (fun _ _ => True)
    (pair .start (.replaceCommit six)) false five fun _ _ _ => trivial
  have hsecond := @replace_run Bool _ oneBlockJob (noFiles.committed five) (fun _ => freshOptions)
    (fun _ _ => True) (pair (.done (some five) (.ok five)) .start) true six fun _ _ _ => trivial
  rw [update_pair_false, update_pair_false] at hfirst
  rw [update_pair_true, update_pair_true] at hsecond
  exact ⟨five, six, _, _, htests.trans hfirst, hsecond, rfl, rfl, hne, rfl, rfl⟩

end AttestedCompute.Platt
