import AttestedCompute.Ladder.Check

/-!
# Calls on a started checker

After `pt21_ladder_start` a caller steps and finishes in any order, and may go on after
a refusal. A call whose signed arithmetic overflows has no defined outcome, so a
sequence of calls has a state only while no call overflows.
-/

namespace AttestedCompute.Ladder

/-- A call on a started checker. -/
inductive Call where
  | step (packet : Bytes) (out : StepOut)
  | finish

/-- The state after a call, unless the call is undefined. -/
def Call.apply (state : LadderState) : Call → Option LadderState
  | .step packet out =>
      let (result, state', _) := ladderStep state packet out
      if result = .error .signedOverflow then none else some state'
  | .finish => some (ladderFinish state).1

def runCalls : LadderState → List Call → Option LadderState
  | state, [] => some state
  | state, call :: rest => (call.apply state).bind fun state' => runCalls state' rest

/-- A state the checker can have after a start. -/
def Reachable (state : LadderState) : Prop :=
  ∃ firstBlock firstCount blocksPerGroup commitPackets calls,
    runCalls (ladderStart firstBlock firstCount blocksPerGroup commitPackets) calls = some state

/-- What `pt21_ladder_step` checks before its signed arithmetic. -/
def checkStructure (state : LadderState) (packet : Bytes) : Except Fault Unit := do
  checkHeader state packet
  checkSlots packet
  checkStationary packet
  checkPadding packet
  checkParity packet
  checkBoundary packet
  checkIntervals packet

/-- The signed arithmetic of `pt21_ladder_step`. -/
def checkArithmetic (packet : Bytes) : Except Fault Unit := do
  let (left, right) ← flankWeights packet
  let (lower, upper) ← turingQuotients packet left right
  checkTargets (readHeader packet) lower upper

theorem checkPacket_eq (state : LadderState) (packet : Bytes) :
    checkPacket state packet = (do checkStructure state packet; checkArithmetic packet) := by
  simp only [checkPacket, checkStructure, checkTuring, checkArithmetic, bind_assoc]

theorem reachable_start (firstBlock firstCount : UInt64) (blocksPerGroup : UInt32)
    (commitPackets : Bool) :
    Reachable (ladderStart firstBlock firstCount blocksPerGroup commitPackets) :=
  ⟨firstBlock, firstCount, blocksPerGroup, commitPackets, [], rfl⟩

/-- A step returns what its checks return. -/
theorem ladderStep_fst (state : LadderState) (packet : Bytes) (out : StepOut) :
    (ladderStep state packet out).1 = checkPacket state packet := by
  unfold ladderStep
  cases hcheck : checkPacket state packet with
  | error e => rfl
  | ok u =>
      dsimp only
      split <;> rfl

theorem apply_step_isSome (state : LadderState) (packet : Bytes) (out : StepOut) :
    ((Call.step packet out).apply state).isSome = true
      ↔ checkPacket state packet ≠ .error .signedOverflow := by
  rw [← ladderStep_fst state packet out, Call.apply]
  by_cases h : (ladderStep state packet out).1 = .error .signedOverflow
  · simp [h]
  · simp [h]

end AttestedCompute.Ladder
