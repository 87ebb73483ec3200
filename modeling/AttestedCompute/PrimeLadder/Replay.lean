import AttestedCompute.PrimeLadder.RangeCanonical

/-!
# Replaying a campaign

`replay_campaign` and `advance_replay_state` of `tg_verifier/goldbach_campaign.py`. The replay
checks the range files of a directory in order, from the seed prime on; advancing checks only
the next file against the state of a replay. Whatever a replay accepts is one ladder of
checked rungs, from the seed to the last range.

A directory gives the bytes of the range file of an index. Its manifest has been loaded, so
the parameters are at hand.
-/

namespace AttestedCompute.PrimeLadder

open Fallible (bind_ok pure_ok)

/-! ## The replay -/

structure ReplayState where
  parameters : CampaignParameters
  completedRanges : Nat
  previousSha256 : Text
  lastRung : Rung
  totalRecords : Int
  coveredThrough : Int
  deriving DecidableEq

/-- The local variables of the loop over the range files. -/
structure ReplayLoop where
  previousHash : Text := ZERO_HASH
  previousRung : Option Rung := none
  total : Int := 0
  covered : Int
  completed : Nat := 0
  deriving DecidableEq

/-- The first rung of a range is the last one of the range before it. -/
def checkBoundary (p : CampaignParameters) (previousRung : Option Rung) (first : Rung) :
    Checked Unit :=
  match previousRung with
  | none => raiseIf (first.number ≠ p.seedPrime) "campaign does not start at the seed prime"
  | some rung => raiseIf (first ≠ rung) "adjacent ranges do not duplicate the boundary rung"

/-- The variables after a range that passed the checks. -/
def ReplayLoop.observe (loop : ReplayLoop) (result : VerifiedRange) : ReplayLoop where
  previousHash := result.sha256
  previousRung := some result.last
  total := loop.total
    + (if loop.completed = 0 then (result.recordCount : Int) else result.recordCount - 1)
  covered := max loop.covered result.coveredThrough
  completed := loop.completed + 1

theorem ReplayLoop.observe_total (loop : ReplayLoop) (result : VerifiedRange) :
    (loop.observe result).total = loop.total
      + (if loop.completed = 0 then (result.recordCount : Int) else result.recordCount - 1) := rfl

/-- One round of the loop over the range files. -/
def replayRange (s : Surroundings) (p : CampaignParameters) (loop : ReplayLoop) (file : Bytes) :
    Checked ReplayLoop := do
  let result ← verifyRangeFile s p loop.completed loop.previousHash file
  checkBoundary p loop.previousRung result.first
  raiseIf (loop.covered + 2 < result.first.number + p.binaryFirstEven)
    "prime ladder leaves an uncovered odd target"
  pure (loop.observe result)

/-- `for index in range(range_count)`, with the rounds that are left. -/
def replayRanges (s : Surroundings) (p : CampaignParameters) (files : Nat → Option Bytes) :
    Nat → ReplayLoop → Checked ReplayLoop
  | 0, loop => .ok loop
  | left + 1, loop =>
      match files loop.completed with
      | none => .ok loop
      | some file => do
          let loop ← replayRange s p loop file
          replayRanges s p files left loop

/-- The state of a finished loop; without any range it is that of the seed. -/
def ReplayLoop.state (p : CampaignParameters) (loop : ReplayLoop) : ReplayState :=
  match loop.previousRung with
  | some rung => ⟨p, loop.completed, loop.previousHash, rung, loop.total, loop.covered⟩
  | none => ⟨p, loop.completed, loop.previousHash, ⟨p.seedPrime, .direct64, none, none⟩, 1,
      p.seedPrime + p.binaryLastEven⟩

@[simp]
theorem ReplayLoop.state_parameters (p : CampaignParameters) (loop : ReplayLoop) :
    (loop.state p).parameters = p := by
  unfold ReplayLoop.state
  cases loop.previousRung <;> rfl

@[simp]
theorem ReplayLoop.state_completed (p : CampaignParameters) (loop : ReplayLoop) :
    (loop.state p).completedRanges = loop.completed := by
  unfold ReplayLoop.state
  cases loop.previousRung <;> rfl

@[simp]
theorem ReplayLoop.state_previous (p : CampaignParameters) (loop : ReplayLoop) :
    (loop.state p).previousSha256 = loop.previousHash := by
  unfold ReplayLoop.state
  cases loop.previousRung <;> rfl

def ReplayLoop.start (p : CampaignParameters) : ReplayLoop where
  covered := p.seedPrime + p.maximumGap

/-- A range file after the first one that is missing. -/
def hasLaterRange (p : CampaignParameters) (files : Nat → Option Bytes) (completed : Nat) : Bool :=
  (List.range' (completed + 1) (p.rangeCount.toNat - (completed + 1))).any fun index =>
    (files index).isSome

/-- `replay_campaign`. The parameters were validated as the manifest was loaded. -/
def replayCampaign (s : Surroundings) (p : CampaignParameters) (files : Nat → Option Bytes) :
    Checked ReplayState := do
  p.validate s.isPrime
  let loop ← replayRanges s p files p.rangeCount.toNat (.start p)
  raiseIf (hasLaterRange p files loop.completed = true) "non-contiguous range files"
  pure (loop.state p)

/-- `advance_replay_state`, with the bytes of the next range file. -/
def advanceReplayState (s : Surroundings) (state : ReplayState) (file : Bytes) :
    Checked ReplayState := do
  raiseIf (state.parameters.rangeCount ≤ state.completedRanges) "campaign is already complete"
  let result ← verifyRangeFile s state.parameters state.completedRanges state.previousSha256 file
  raiseIf (result.first ≠ state.lastRung) "new range does not duplicate the boundary rung"
  raiseIf (state.coveredThrough + 2 < result.first.number + state.parameters.binaryFirstEven)
    "prime ladder leaves an uncovered odd target"
  pure
    { parameters := state.parameters, completedRanges := state.completedRanges + 1
      previousSha256 := result.sha256, lastRung := result.last
      totalRecords := state.totalRecords + result.recordCount - 1
      coveredThrough := max state.coveredThrough result.coveredThrough }

/-! ## What a round establishes -/

/-- Rungs from the seed on that climb, each checked and in reach of the one before. -/
structure Climbs (s : Surroundings) (p : CampaignParameters) (rungs : List Rung) (last : Rung) :
    Prop where
  seed : (rungs.head?).map Rung.number = some p.seedPrime
  top : rungs.getLast? = some last
  checked : ∀ rung ∈ rungs, checkRung s rung p.prothExponent = .ok ()
  spaced : (rungs.map Rung.number).IsChain (Spaced p)

/-- **The invariant of the loop.** -/
structure ReplayLoop.Holds (s : Surroundings) (p : CampaignParameters) (loop : ReplayLoop) : Prop where
  started : loop.previousRung = none → loop = .start p
  climbed : ∀ last ∈ loop.previousRung, 0 < loop.completed
    ∧ |last.number - loop.completed * p.rangeWidth| ≤ p.endpointTolerance
    ∧ loop.covered = last.number + p.maximumGap
    ∧ ∃ rungs, Climbs s p rungs last ∧ loop.total = rungs.length

theorem holds_start (s : Surroundings) (p : CampaignParameters) : (ReplayLoop.start p).Holds s p :=
  ⟨fun _ => rfl, fun last h => absurd h (by simp [ReplayLoop.start])⟩

theorem chain_lt {p : CampaignParameters} {numbers : List Int} (h : numbers.IsChain (Spaced p)) :
    numbers.Pairwise (· < ·) :=
  List.isChain_iff_pairwise.mp (h.imp fun _ _ hstep => hstep.1)

/-- The last rung of a range is not below its first one. -/
theorem first_le_last {p : CampaignParameters} {rungs : List Rung} {first last : Rung}
    (h : (rungs.map Rung.number).IsChain (Spaced p)) (hfirst : rungs.head? = some first)
    (hlast : rungs.getLast? = some last) : first.number ≤ last.number := by
  cases rungs with
  | nil => exact absurd hfirst (by simp)
  | cons rung rungs =>
      obtain rfl := Option.some.inj hfirst
      have hmem := List.mem_of_getLast? hlast
      rcases List.mem_cons.mp hmem with rfl | hmem
      · exact le_refl _
      · have hlt := List.rel_of_pairwise_cons (chain_lt h) (List.mem_map_of_mem hmem)
        exact hlt.le

/-- A ladder goes on with the rungs of a range that starts at its top. -/
theorem Climbs.append {s : Surroundings} {p : CampaignParameters} {rungs tail : List Rung}
    {first last : Rung} {index : Nat} (h : Climbs s p rungs first)
    (hladder : IsLadder s p index (first :: tail)) (hlast : (first :: tail).getLast? = some last) :
    Climbs s p (rungs ++ tail) last := by
  have hne : rungs ≠ [] := fun hnil => absurd h.top (by simp [hnil])
  refine ⟨?_, ?_, ?_, ?_⟩
  · rw [List.head?_append_of_ne_nil _ hne]
    exact h.seed
  · rw [List.getLast?_append, h.top]
    cases tail with
    | nil => exact hlast
    | cons next tail =>
        rw [List.getLast?_cons_cons] at hlast
        rw [hlast]
        rfl
  · intro rung hrung
    rcases List.mem_append.mp hrung with hrung | hrung
    · exact h.checked rung hrung
    · exact hladder.checked rung (List.mem_cons_of_mem _ hrung)
  · have hspaced := hladder.spaced
    rw [List.map_cons, List.isChain_cons] at hspaced
    rw [List.map_append, List.isChain_append]
    refine ⟨h.spaced, hspaced.2, fun lower hlower => ?_⟩
    rw [List.getLast?_map, h.top] at hlower
    exact Option.some.inj hlower ▸ hspaced.1

/-- The first range starts the ladder. -/
theorem IsLadder.climbs {s : Surroundings} {p : CampaignParameters} {index : Nat}
    {rungs : List Rung} {first last : Rung} (h : IsLadder s p index rungs)
    (hfirst : rungs.head? = some first) (hseed : first.number = p.seedPrime)
    (hlast : rungs.getLast? = some last) : Climbs s p rungs last :=
  ⟨by rw [hfirst, Option.map_some, hseed], hlast, h.checked, h.spaced⟩

theorem replayRange_ok {s : Surroundings} {p : CampaignParameters} {loop next : ReplayLoop}
    {file : Bytes} :
    replayRange s p loop file = .ok next ↔
      ∃ result, verifyRangeFile s p loop.completed loop.previousHash file = .ok result
        ∧ checkBoundary p loop.previousRung result.first = .ok ()
        ∧ result.first.number + p.binaryFirstEven ≤ loop.covered + 2
        ∧ loop.observe result = next := by
  unfold replayRange
  simp only [bind_ok, raiseIf_ok, not_lt, pure_ok]
  constructor
  · rintro ⟨result, hresult, _, hboundary, _, hcovered, hnext⟩
    exact ⟨result, hresult, hboundary, hcovered, hnext⟩
  · rintro ⟨result, hresult, hboundary, hcovered, hnext⟩
    exact ⟨result, hresult, (), hboundary, (), hcovered, hnext⟩

/-- **A round keeps the invariant.** -/
theorem holds_range {s : Surroundings} {p : CampaignParameters} (hp : p.Valid s.isPrime)
    {loop next : ReplayLoop} {file : Bytes} (h : loop.Holds s p)
    (hround : replayRange s p loop file = .ok next) : next.Holds s p := by
  obtain ⟨result, hverify, hboundary, -, rfl⟩ := replayRange_ok.mp hround
  obtain ⟨rungs, -, hdescribes, hladder, -, hcovered⟩ := verifyRangeFile_ok hverify
  have hgap := hp.gap
  refine ⟨fun hnone => absurd hnone (by simp [ReplayLoop.observe]), fun last hlast => ?_⟩
  obtain rfl : result.last = last := Option.some.inj hlast
  have hright := hladder.right _ hdescribes.last_eq
  have hrise := first_le_last hladder.spaced hdescribes.first_eq hdescribes.last_eq
  refine ⟨Nat.succ_pos _, ?_, ?_⟩
  · show |result.last.number - ((loop.completed + 1 : Nat) : Int) * p.rangeWidth| ≤ _
    rw [Nat.cast_add, Nat.cast_one]
    exact hright
  cases hprevious : loop.previousRung with
  | none =>
      have hstart := h.started hprevious
      subst hstart
      have hseed : result.first.number = p.seedPrime := not_not.mp (raiseIf_ok.mp hboundary)
      refine ⟨?_, rungs, hladder.climbs hdescribes.first_eq hseed hdescribes.last_eq, ?_⟩
      · show max (p.seedPrime + p.maximumGap) result.coveredThrough = _
        omega
      · have hfresh : (ReplayLoop.start p).completed = 0 := rfl
        rw [ReplayLoop.observe_total, if_pos hfresh, hdescribes.count_eq]
        exact zero_add _
  | some rung =>
      rw [hprevious] at hboundary
      obtain rfl : result.first = rung := not_not.mp (raiseIf_ok.mp hboundary)
      obtain ⟨hstarted, -, hbefore, before, hclimbs, htotal⟩ := h.climbed _ hprevious
      cases rungs with
      | nil => exact absurd hdescribes.first_eq (by simp)
      | cons first tail =>
          obtain rfl : first = result.first := Option.some.inj hdescribes.first_eq
          refine ⟨?_, before ++ tail, hclimbs.append hladder hdescribes.last_eq, ?_⟩
          · show max loop.covered result.coveredThrough = _
            omega
          · rw [ReplayLoop.observe_total, if_neg (by omega), htotal, hdescribes.count_eq, List.length_append, List.length_cons]
            push_cast
            omega

/-- **The whole loop keeps the invariant.** -/
theorem holds_ranges {s : Surroundings} {p : CampaignParameters} (hp : p.Valid s.isPrime)
    {files : Nat → Option Bytes} {left : Nat} {loop final : ReplayLoop} (h : loop.Holds s p)
    (hrun : replayRanges s p files left loop = .ok final) : final.Holds s p := by
  induction left generalizing loop with
  | zero => exact Except.ok.inj hrun ▸ h
  | succ left ih =>
      rw [replayRanges] at hrun
      cases hfile : files loop.completed with
      | none =>
          rw [hfile] at hrun
          exact Except.ok.inj hrun ▸ h
      | some file =>
          rw [hfile] at hrun
          obtain ⟨next, hround, hrest⟩ := bind_ok.mp hrun
          exact ih (holds_range hp h hround) hrest

/-- What a replayed state says: one ladder from the seed to its last rung. -/
structure ReplayState.Describes (s : Surroundings) (state : ReplayState) : Prop where
  valid : state.parameters.Valid s.isPrime
  covered : state.coveredThrough = state.lastRung.number + state.parameters.maximumGap
  near : 0 < state.completedRanges → |state.lastRung.number
    - state.completedRanges * state.parameters.rangeWidth| ≤ state.parameters.endpointTolerance
  climbed : ∃ rungs, Climbs s state.parameters rungs state.lastRung
    ∧ state.totalRecords = rungs.length

theorem replayCampaign_ok {s : Surroundings} {p : CampaignParameters} {files : Nat → Option Bytes}
    {state : ReplayState} :
    replayCampaign s p files = .ok state ↔
      p.validate s.isPrime = .ok () ∧ ∃ loop,
        replayRanges s p files p.rangeCount.toNat (.start p) = .ok loop
          ∧ hasLaterRange p files loop.completed = false ∧ loop.state p = state := by
  unfold replayCampaign
  simp only [bind_ok, raiseIf_ok, Bool.not_eq_true, pure_ok]
  constructor
  · rintro ⟨_, hvalid, loop, hloop, _, hlater, hstate⟩
    exact ⟨hvalid, loop, hloop, hlater, hstate⟩
  · rintro ⟨hvalid, loop, hloop, hlater, hstate⟩
    exact ⟨(), hvalid, loop, hloop, (), hlater, hstate⟩

/-- The seed alone is a ladder. -/
theorem climbs_seed {s : Surroundings} {p : CampaignParameters} (hp : p.Valid s.isPrime) :
    Climbs s p [⟨p.seedPrime, .direct64, none, none⟩] ⟨p.seedPrime, .direct64, none, none⟩ := by
  refine ⟨rfl, rfl, fun rung hrung => ?_, List.isChain_singleton _⟩
  obtain rfl := List.mem_singleton.mp hrung
  exact raiseIf_ok.mpr (by rw [hp.seed]; decide)

/-- **What `replay_campaign` establishes.** -/
theorem replayCampaign_describes {s : Surroundings} {p : CampaignParameters}
    {files : Nat → Option Bytes} {state : ReplayState} (h : replayCampaign s p files = .ok state) :
    state.parameters = p ∧ state.Describes s := by
  obtain ⟨hvalid, loop, hloop, -, rfl⟩ := replayCampaign_ok.mp h
  have hp := valid_of_validate hvalid
  have hholds := holds_ranges hp (holds_start s p) hloop
  unfold ReplayLoop.state
  cases hrung : loop.previousRung with
  | none =>
      have hstart := hholds.started hrung
      subst hstart
      exact ⟨rfl, hp, by rw [hp.lastEven], fun h => absurd h (lt_irrefl 0), _, climbs_seed hp, rfl⟩
  | some last =>
      obtain ⟨-, hnear, hcovered, rungs, hclimbs, htotal⟩ := hholds.climbed last hrung
      exact ⟨rfl, hp, hcovered, fun _ => hnear, rungs, hclimbs, htotal⟩

/-! ## Advancing -/

theorem advanceReplayState_ok {s : Surroundings} {state next : ReplayState} {file : Bytes} :
    advanceReplayState s state file = .ok next ↔
      state.completedRanges < state.parameters.rangeCount ∧ ∃ result,
        verifyRangeFile s state.parameters state.completedRanges state.previousSha256 file
            = .ok result
          ∧ result.first = state.lastRung
          ∧ result.first.number + state.parameters.binaryFirstEven ≤ state.coveredThrough + 2
          ∧ ⟨state.parameters, state.completedRanges + 1, result.sha256, result.last,
              state.totalRecords + result.recordCount - 1,
              max state.coveredThrough result.coveredThrough⟩ = next := by
  unfold advanceReplayState
  simp only [bind_ok, raiseIf_ok, not_le, not_lt, not_not, pure_ok]
  constructor
  · rintro ⟨_, hopen, result, hresult, _, hfirst, _, hcovered, hnext⟩
    exact ⟨hopen, result, hresult, hfirst, hcovered, hnext⟩
  · rintro ⟨hopen, result, hresult, hfirst, hcovered, hnext⟩
    exact ⟨(), hopen, result, hresult, (), hfirst, (), hcovered, hnext⟩

theorem completed_of_range {s : Surroundings} {p : CampaignParameters} {loop next : ReplayLoop}
    {file : Bytes} (h : replayRange s p loop file = .ok next) :
    next.completed = loop.completed + 1 := by
  obtain ⟨result, -, -, -, rfl⟩ := replayRange_ok.mp h
  rfl

theorem completed_of_ranges {s : Surroundings} {p : CampaignParameters}
    {files : Nat → Option Bytes} {left : Nat} {loop final : ReplayLoop}
    (h : replayRanges s p files left loop = .ok final) :
    loop.completed ≤ final.completed := by
  induction left generalizing loop with
  | zero => exact Except.ok.inj h ▸ le_refl _
  | succ left ih =>
      rw [replayRanges] at h
      cases hfile : files loop.completed with
      | none =>
          rw [hfile] at h
          exact Except.ok.inj h ▸ le_refl _
      | some file =>
          rw [hfile] at h
          obtain ⟨next, hround, hrest⟩ := bind_ok.mp h
          have hnext := completed_of_range hround
          have := ih hrest
          omega

/-- With one more file at the end, the loop makes one more round. -/
theorem replayRanges_extend {s : Surroundings} {p : CampaignParameters}
    {files : Nat → Option Bytes} (file : Bytes) {left : Nat} {loop final : ReplayLoop}
    (h : replayRanges s p files left loop = .ok final)
    (hroom : final.completed < loop.completed + left)
    (hafter : final.completed + 1 < loop.completed + left → files (final.completed + 1) = none) :
    replayRanges s p (Function.update files final.completed (some file)) left loop
      = replayRange s p final file := by
  induction left generalizing loop with
  | zero =>
      obtain rfl := Except.ok.inj h
      exact absurd hroom (by omega)
  | succ left ih =>
      rw [replayRanges] at h ⊢
      cases hfile : files loop.completed with
      | none =>
          rw [hfile] at h
          obtain rfl := Except.ok.inj h
          rw [Function.update_self]
          -- the round after the new file finds no further one
          have hstop : ∀ next, replayRange s p loop file = .ok next →
              replayRanges s p (Function.update files loop.completed (some file)) left next
                = .ok next := by
            intro next hround
            have hnext := completed_of_range hround
            cases left with
            | zero => rfl
            | succ left =>
                rw [replayRanges, hnext, Function.update_of_ne (by omega), hafter (by omega)]
          show (replayRange s p loop file >>= _) = _
          cases hround : replayRange s p loop file with
          | error fault => rfl
          | ok next => exact hstop next hround
      | some before =>
          rw [hfile] at h
          obtain ⟨next, hround, hrest⟩ := bind_ok.mp h
          have hnext := completed_of_range hround
          have hlater := completed_of_ranges hrest
          rw [Function.update_of_ne (by omega), hfile]
          show (replayRange s p loop before >>= _) = _
          rw [hround]
          exact ih hrest (by omega) fun hroom => hafter (by omega)

theorem hasLaterRange_false {p : CampaignParameters} {files : Nat → Option Bytes}
    {completed : Nat} :
    hasLaterRange p files completed = false ↔
      ∀ index, completed < index → index < p.rangeCount.toNat → files index = none := by
  unfold hasLaterRange
  rw [List.any_eq_false]
  constructor
  · intro h index hlow hhigh
    have hnone := h index (List.mem_range'_1.mpr (by omega))
    simpa using hnone
  · intro h index hindex
    have hrange := List.mem_range'_1.mp hindex
    rw [h index (by omega) (by omega)]
    decide

/-- A direct rung that was read from a file is given by its number. -/
theorem direct_of_verified {s : Surroundings} {p : CampaignParameters} {index : Nat}
    {previous : Text} {file : Bytes} {result : VerifiedRange}
    (h : verifyRangeFile s p index previous file = .ok result) {number : Int} :
    result.first = ⟨number, .direct64, none, none⟩ ↔
      result.first.number = number ∧ result.first.certificateKind = .direct64 := by
  obtain ⟨rungs, _, hdescribes, -, hholds, -⟩ := verifyRangeFile_ok h
  have hstored : result.first.stored = result.first := by
    cases rungs with
    | nil => exact absurd hdescribes.first_eq (by simp)
    | cons first rungs =>
        obtain rfl : first = result.first := Option.some.inj hdescribes.first_eq
        exact hholds.readable.1.1
  constructor
  · intro hfirst
    rw [hfirst]
    exact ⟨rfl, rfl⟩
  · rintro ⟨rfl, hkind⟩
    rw [← hstored, Rung.stored, hkind]

/-- The state after one more round. -/
theorem state_observe (p : CampaignParameters) (loop : ReplayLoop) (result : VerifiedRange) :
    (loop.observe result).state p = ⟨p, loop.completed + 1, result.sha256, result.last,
      loop.total + (if loop.completed = 0 then (result.recordCount : Int) else result.recordCount - 1),
      max loop.covered result.coveredThrough⟩ := rfl

/--
**Advancing agrees with a replay.** After a replay, a new file at the end of the directory is
accepted by `advance_replay_state` with the very state that a replay of the whole directory
finds. Only for the first file advancing asks for more: the seed must be a direct rung there.
-/
theorem advance_agrees_with_replay {s : Surroundings} {p : CampaignParameters}
    {files : Nat → Option Bytes} {file : Bytes} {state next : ReplayState}
    (h : replayCampaign s p files = .ok state) (hopen : state.completedRanges < p.rangeCount) :
    advanceReplayState s state file = .ok next ↔
      replayCampaign s p (Function.update files state.completedRanges (some file)) = .ok next
        ∧ (state.completedRanges = 0 → ∀ result, verifyRangeFile s p 0 ZERO_HASH file = .ok result →
            result.first.certificateKind = .direct64) := by
  obtain ⟨hvalid, loop, hloop, hlater, rfl⟩ := replayCampaign_ok.mp h
  have hp := valid_of_validate hvalid
  have hholds := holds_ranges hp (holds_start s p) hloop
  have hnone := hasLaterRange_false.mp hlater
  rw [ReplayLoop.state_completed] at hopen
  have hextend := replayRanges_extend file hloop
    (by show loop.completed < 0 + p.rangeCount.toNat; omega)
    fun hroom => hnone _ (by omega) (by
      have hroom : loop.completed + 1 < 0 + p.rangeCount.toNat := hroom
      omega)
  have hlaterFalse : hasLaterRange p (Function.update files loop.completed (some file))
      (loop.completed + 1) = false := by
    refine hasLaterRange_false.mpr fun index hlow hhigh => ?_
    rw [Function.update_of_ne (by omega)]
    exact hnone index (by omega) hhigh
  rw [advanceReplayState_ok, replayCampaign_ok, ReplayLoop.state_completed,
    ReplayLoop.state_parameters, ReplayLoop.state_previous, hextend]
  simp only [replayRange_ok]
  cases hrung : loop.previousRung with
  | some rung =>
      have hstarted := (hholds.climbed rung hrung).1
      have hstate : loop.state p
          = ⟨p, loop.completed, loop.previousHash, rung, loop.total, loop.covered⟩ := by
        rw [ReplayLoop.state, hrung]
      rw [hstate]
      constructor
      · rintro ⟨-, result, hresult, hfirst, hcovered, rfl⟩
        refine ⟨⟨hvalid, _, ⟨result, hresult, raiseIf_ok.mpr (not_not.mpr hfirst), hcovered, rfl⟩,
          hlaterFalse, ?_⟩, fun h0 => absurd h0 hstarted.ne'⟩
        rw [state_observe, if_neg hstarted.ne', add_sub_assoc]
      · rintro ⟨⟨-, _, ⟨result, hresult, hboundary, hcovered, rfl⟩, -, rfl⟩, -⟩
        refine ⟨hopen, result, hresult, not_not.mp (raiseIf_ok.mp hboundary), hcovered, ?_⟩
        rw [state_observe, if_neg hstarted.ne', add_sub_assoc]
  | none =>
      have hstart := hholds.started hrung
      subst hstart
      have hstate : (ReplayLoop.start p).state p = ⟨p, 0, ZERO_HASH,
          ⟨p.seedPrime, .direct64, none, none⟩, 1, p.seedPrime + p.maximumGap⟩ := by
        rw [← hp.lastEven]
        rfl
      have hfresh : (ReplayLoop.start p).completed = 0 := rfl
      rw [hstate]
      constructor
      · rintro ⟨-, result, hresult, hfirst, hcovered, rfl⟩
        have hdirect := (direct_of_verified hresult).mp hfirst
        refine ⟨⟨hvalid, _, ⟨result, hresult, raiseIf_ok.mpr (not_not.mpr hdirect.1), hcovered, rfl⟩,
          hlaterFalse, ?_⟩, fun _ other hother => ?_⟩
        · rw [state_observe, if_pos hfresh]
          refine congrArg (fun total => ReplayState.mk p _ _ _ total _) ?_
          show (0 : Int) + _ = 1 + _ - 1
          omega
        · rw [← Except.ok.inj (hresult.symm.trans hother)]
          exact hdirect.2
      · rintro ⟨⟨-, _, ⟨result, hresult, hboundary, hcovered, rfl⟩, -, rfl⟩, hdirect⟩
        have hseed : result.first.number = p.seedPrime := not_not.mp (raiseIf_ok.mp hboundary)
        refine ⟨hopen, result, hresult, (direct_of_verified hresult).mpr
          ⟨hseed, hdirect rfl result hresult⟩, hcovered, ?_⟩
        rw [state_observe, if_pos hfresh]
        refine congrArg (fun total => ReplayState.mk p _ _ _ total _) ?_
        show 1 + _ - 1 = (0 : Int) + _
        omega

/-- The directory without range files is replayed to the seed. -/
theorem small_replay : replayCampaign smallSurroundings smallParameters (fun _ => none)
    = .ok ⟨smallParameters, 0, ZERO_HASH, ⟨3, .direct64, none, none⟩, 1, 11⟩ :=
  replayCampaign_ok.mpr ⟨small_validates, .start smallParameters, rfl, rfl, rfl⟩

/-- The first range of the small campaign advances the state of the seed. -/
theorem small_advances : ∃ file next, advanceReplayState smallSurroundings
    ⟨smallParameters, 0, ZERO_HASH, ⟨3, .direct64, none, none⟩, 1, 11⟩ file = .ok next
      ∧ next.coveredThrough = 15 := by
  obtain ⟨file, hfile⟩ := small_writes
  obtain ⟨result, hresult, hdescribes⟩ := verifyRangeFile_written hfile small_isLadder
    (fun rung hrung => by
      obtain rfl := Option.some.inj hrung
      decide) (by decide +kernel)
  obtain ⟨_, _, hsame, -, -, hcovered⟩ := verifyRangeFile_ok hresult
  have hfirst : result.first = ⟨3, .direct64, none, none⟩ := (Option.some.inj hdescribes.first_eq).symm
  have hlast : result.last = ⟨7, .direct64, none, none⟩ := (Option.some.inj hdescribes.last_eq).symm
  refine ⟨file, _, advanceReplayState_ok.mpr ⟨by decide, result, hresult, hfirst, ?_, rfl⟩, ?_⟩
  · rw [hfirst]
    decide
  · show max 11 result.coveredThrough = 15
    rw [hcovered, hlast]
    decide

theorem advance_agrees_with_replay_small : ∃ file next,
    replayCampaign smallSurroundings smallParameters (Function.update (fun _ => none) 0 (some file))
      = .ok next ∧ next.coveredThrough = 15 := by
  obtain ⟨file, next, hadvance, hcovered⟩ := small_advances
  exact ⟨file, next, ((advance_agrees_with_replay small_replay (by decide)).mp hadvance).1, hcovered⟩

end AttestedCompute.PrimeLadder
