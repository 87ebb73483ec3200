import AttestedCompute.Ladder.Check
import AttestedCompute.Lib.EarlyReturn

/-!
# The order of checks and writes in a step

`ladderStep` says what a call computes. Here is `pt21_ladder_step` again as the sequence of its
checks and assignments, on the memory it shares with its caller: an early return keeps whatever
was assigned before it. The two agree (`exec_stepStatements`), and a refused call leaves nothing
behind but a cleared ready flag because the first write to anything else comes after the last
check.
-/

namespace AttestedCompute.Ladder

open Code (check look write ReadOnly Total Atomic atomic_bind readOnly_check readOnly_look
  total_bind total_write total_look)

/-- What a call can write: the ladder state and the caller's buffers. -/
structure Memory where
  state : LadderState
  out : StepOut
  deriving DecidableEq, Repr

abbrev Statement := Code Fault Memory

/-- An assignment to the ladder state. -/
def setState (f : LadderState → LadderState) : Statement Unit :=
  write fun memory => { memory with state := f memory.state }

/-- An assignment to the caller's summary. -/
def setSummary (f : WindowSummary → WindowSummary) : Statement Unit :=
  write fun memory => { memory with out := { memory.out with summary := f memory.out.summary } }

/-- An assignment to `*group_ready`. -/
def setReady (ready : Bool) : Statement Unit :=
  write fun memory => { memory with out := { memory.out with groupReady := ready } }

/-- `bytes` written over a buffer from `offset` on. -/
def overwrite (buffer : Bytes) (offset : Nat) (bytes : Bytes) : Bytes :=
  buffer.take offset ++ bytes ++ buffer.drop (offset + bytes.length)

/-- A write into the caller's group record. -/
def writeRecord (offset : Nat) (bytes : LadderState → Bytes) : Statement Unit :=
  write fun memory =>
    { memory with out := { memory.out with
      groupRecord := overwrite memory.out.groupRecord offset (bytes memory.state) } }

/-- `pt21_fold_window` -/
def foldWindowStatements (packetDigest : Bytes) : Statement Unit := do
  let summary ← look fun memory => memory.out.summary
  setState fun state => { state with
    groupDigestState := sha256Absorb state.groupDigestState (windowRecord summary packetDigest) 1 }
  setState fun state => { state with groupDigestLength := state.groupDigestLength + 64 }

/-- `pt21_emit_group` -/
def emitGroupStatements : Statement Unit := do
  let digest ← look fun memory =>
    sha256Finalize memory.state.groupDigestState [] memory.state.groupDigestLength
  writeRecord 0 fun state => writeBe64 state.groupFirstBlock
  writeRecord 8 fun state => writeBe64 state.groupBlocks
  writeRecord 16 fun state => writeBe64 state.groupFirstCount
  writeRecord 24 fun state => writeBe64 state.groupSlots
  writeRecord 32 fun state => writeBe64 state.runningCount
  writeRecord 40 fun _ => digest
  writeRecord 72 fun state => writeBe64 state.groupsEmitted
  writeRecord 80 fun _ => writeBe64 0
  -- the record is hashed where it was written
  let record ← look fun memory => memory.out.groupRecord.take groupRecordBytes
  setState fun state => { state with
    rootState := sha256Absorb state.rootState (rootInput state record) 1 }
  setState fun state => { state with rootLength := state.rootLength + 64 }
  setState fun state => { state with groupsEmitted := state.groupsEmitted + 1 }
  setState fun state => { state with groupFirstBlock := state.nextBlock }
  setState fun state => { state with groupFirstCount := state.runningCount }
  setState fun state => { state with groupBlocks := 0 }
  setState fun state => { state with groupSlots := 0 }
  setState fun state => { state with groupDigestState := Sha256.init }
  setState fun state => { state with groupDigestLength := 0 }

/-- The end of `pt21_ladder_step`: a full group is emitted. -/
def closeGroupStatements : Statement Unit := do
  let full ← look fun memory =>
    decide (memory.state.groupBlocks = memory.state.blocksPerGroup.toUInt64)
  if full then
    emitGroupStatements
    setReady true

/-- (6) of `pt21_ladder_step`: commit to the packet and fold the summary. -/
def commitStatements (packet : Bytes) : Statement Unit := do
  let header := readHeader packet
  let digest ← look fun memory => packetDigest memory.state.commitPackets packet
  setSummary fun summary => { summary with block := header.block }
  setSummary fun summary => { summary with lowerCount := header.lowerCount }
  setSummary fun summary => { summary with slots := header.slots }
  setSummary fun summary => { summary with upperCount := header.upperCount }
  foldWindowStatements digest
  setState fun state => { state with nextBlock := header.block + 1 }
  setState fun state => { state with runningCount := header.upperCount }
  setState fun state => { state with groupBlocks := state.groupBlocks + 1 }
  setState fun state => { state with groupSlots := state.groupSlots + header.slots }
  closeGroupStatements

/-- The body of `pt21_ladder_step` after the ready flag is cleared. -/
def checkedStatements (packet : Bytes) : Statement Unit := do
  let state ← look fun memory => memory.state
  check (checkHeader state packet)
  check (checkSlots packet)
  check (checkStationary packet)
  check (checkPadding packet)
  check (checkParity packet)
  check (checkBoundary packet)
  check (checkTuring packet)
  commitStatements packet

/-- `pt21_ladder_step` -/
def stepStatements (packet : Bytes) : Statement Unit := do
  setReady false
  checkedStatements packet

/-! ## The statements compute `ladderStep` -/

/-- Writing right after what was written last. -/
theorem overwrite_append (front buffer bytes : Bytes) {offset next : Nat}
    (hoffset : front.length = offset) (hnext : offset + bytes.length = next) :
    overwrite (front ++ buffer.drop offset) offset bytes = (front ++ bytes) ++ buffer.drop next := by
  unfold overwrite
  rw [List.take_left' hoffset, ← List.drop_drop, List.drop_left' hoffset, List.drop_drop, hnext]

/-- Five words, a digest and two words written one after the other fill the buffer. -/
theorem overwrite_fields {w₁ w₂ w₃ w₄ w₅ digest w₆ w₇ buffer : Bytes} (h₁ : w₁.length = 8)
    (h₂ : w₂.length = 8) (h₃ : w₃.length = 8) (h₄ : w₄.length = 8) (h₅ : w₅.length = 8)
    (hdigest : digest.length = 32) (h₆ : w₆.length = 8) (h₇ : w₇.length = 8)
    (hbuffer : buffer.length = groupRecordBytes) :
    overwrite (overwrite (overwrite (overwrite (overwrite (overwrite (overwrite (overwrite buffer
        0 w₁) 8 w₂) 16 w₃) 24 w₄) 32 w₅) 40 digest) 72 w₆) 80 w₇
      = w₁ ++ w₂ ++ w₃ ++ w₄ ++ w₅ ++ digest ++ w₆ ++ w₇ := by
  have hlen : ∀ {front bytes : Bytes} {m n : Nat}, front.length = m → bytes.length = n →
      (front ++ bytes).length = m + n := by
    intro front bytes m n hfront hbytes
    rw [List.length_append, hfront, hbytes]
  have e₁ : overwrite buffer 0 w₁ = w₁ ++ buffer.drop 8 :=
    overwrite_append [] buffer w₁ rfl (by rw [h₁])
  have l₂ := hlen h₁ h₂
  have l₃ := hlen l₂ h₃
  have l₄ := hlen l₃ h₄
  have l₅ := hlen l₄ h₅
  have l₆ := hlen l₅ hdigest
  have l₇ := hlen l₆ h₆
  rw [e₁, overwrite_append w₁ buffer w₂ h₁ (by rw [h₂]), overwrite_append _ buffer w₃ l₂ (by rw [h₃]),
    overwrite_append _ buffer w₄ l₃ (by rw [h₄]), overwrite_append _ buffer w₅ l₄ (by rw [h₅]),
    overwrite_append _ buffer digest l₅ (by rw [hdigest]),
    overwrite_append _ buffer w₆ l₆ (by rw [h₆]), overwrite_append _ buffer w₇ l₇ (by rw [h₇])]
  change _ ++ buffer.drop groupRecordBytes = _
  rw [List.drop_eq_nil_of_le (Nat.le_of_eq hbuffer), List.append_nil]

theorem length_sha256Finalize (state : Sha256.State) (tail : Bytes) (total : UInt64) :
    (sha256Finalize state tail total).length = 32 := Sha256.length_toBytes _

/-- The writes of `pt21_emit_group` fill the caller's buffer. -/
theorem overwrite_groupRecord (state : LadderState) {buffer : Bytes}
    (h : buffer.length = groupRecordBytes) :
    overwrite (overwrite (overwrite (overwrite (overwrite (overwrite (overwrite (overwrite buffer
        0 (writeBe64 state.groupFirstBlock)) 8 (writeBe64 state.groupBlocks))
        16 (writeBe64 state.groupFirstCount)) 24 (writeBe64 state.groupSlots))
        32 (writeBe64 state.runningCount))
        40 (sha256Finalize state.groupDigestState [] state.groupDigestLength))
        72 (writeBe64 state.groupsEmitted)) 80 (writeBe64 0)
      = groupRecord state :=
  overwrite_fields (length_writeBe64 _) (length_writeBe64 _) (length_writeBe64 _)
    (length_writeBe64 _) (length_writeBe64 _) (length_sha256Finalize _ _ _) (length_writeBe64 _)
    (length_writeBe64 _) h

theorem length_groupRecord (state : LadderState) :
    (groupRecord state).length = groupRecordBytes := by
  simp only [groupRecord, List.length_append, length_writeBe64, length_sha256Finalize]
  rfl

theorem exec_emitGroupStatements {memory : Memory}
    (h : memory.out.groupRecord.length = groupRecordBytes) :
    emitGroupStatements.exec memory
      = (.ok (), { state := (emitGroup memory.state).1
                   out := { memory.out with groupRecord := groupRecord memory.state } }) := by
  have hwritten := overwrite_groupRecord memory.state h
  have hread := List.take_of_length_le (length_groupRecord memory.state).le
  rcases memory with ⟨⟨nextBlock, runningCount, groupFirstBlock, groupFirstCount, groupBlocks,
    groupSlots, groupDigestState, groupDigestLength, rootState, rootLength, groupsEmitted,
    blocksPerGroup, commitPackets⟩, out⟩
  unfold emitGroupStatements setState writeRecord
  simp only [Code.exec_look_bind, Code.exec_write_bind, Code.exec_write] at hwritten hread ⊢
  rw [hwritten, hread, emitGroup]

theorem exec_foldWindowStatements (memory : Memory) (packetDigest : Bytes) :
    (foldWindowStatements packetDigest).exec memory
      = (.ok (), { memory with state := foldWindow memory.state memory.out.summary packetDigest }) := by
  rcases memory with ⟨⟨nextBlock, runningCount, groupFirstBlock, groupFirstCount, groupBlocks,
    groupSlots, groupDigestState, groupDigestLength, rootState, rootLength, groupsEmitted,
    blocksPerGroup, commitPackets⟩, out⟩
  unfold foldWindowStatements setState foldWindow
  simp only [Code.exec_look_bind, Code.exec_write_bind, Code.exec_write]

/-- What an accepted packet leaves in the caller's buffers. -/
def acceptOut (state : LadderState) (packet : Bytes) (out : StepOut) : StepOut :=
  { summary := packetSummary packet
    groupRecord := (acceptPacket state packet).2.getD out.groupRecord
    groupReady := out.groupReady || (acceptPacket state packet).2.isSome }

/-- The assignments up to the group test are `advance`. -/
theorem exec_commitStatements_advance (state : LadderState) (out : StepOut) (packet : Bytes) :
    (commitStatements packet).exec ⟨state, out⟩
      = closeGroupStatements.exec
          ⟨advance state packet, { out with summary := packetSummary packet }⟩ := by
  rcases state with ⟨nextBlock, runningCount, groupFirstBlock, groupFirstCount, groupBlocks,
    groupSlots, groupDigestState, groupDigestLength, rootState, rootLength, groupsEmitted,
    blocksPerGroup, commitPackets⟩
  unfold commitStatements setSummary
  simp only [Code.exec_look_bind, Code.exec_write_bind]
  rw [Code.exec_bind_ok (exec_foldWindowStatements _ _)]
  unfold setState
  simp only [Code.exec_write_bind, advance, packetSummary, foldWindow]

theorem exec_commitStatements {memory : Memory} (packet : Bytes)
    (h : memory.out.groupRecord.length = groupRecordBytes) :
    (commitStatements packet).exec memory
      = (.ok (), { state := (acceptPacket memory.state packet).1
                   out := acceptOut memory.state packet memory.out }) := by
  rcases memory with ⟨state, out⟩
  rw [exec_commitStatements_advance, closeGroupStatements, Code.exec_look_bind, acceptOut,
    acceptPacket]
  by_cases hfull : (advance state packet).groupBlocks = (advance state packet).blocksPerGroup.toUInt64
  · have hemit := @exec_emitGroupStatements
      ⟨advance state packet, { out with summary := packetSummary packet }⟩ h
    rw [decide_eq_true hfull, if_pos rfl, if_pos hfull, Code.exec_bind_ok hemit]
    simp [setReady]
  · rw [decide_eq_false hfull, if_neg Bool.false_ne_true, if_neg hfull]
    simp

/-! ## Checks before writes -/

theorem total_emitGroupStatements : Total emitGroupStatements := by
  unfold emitGroupStatements setState writeRecord
  refine total_bind (total_look _) fun _ => ?_
  repeat refine total_bind (total_write _) fun _ => ?_
  refine total_bind (total_look _) fun _ => ?_
  repeat refine total_bind (total_write _) fun _ => ?_
  exact total_write _

theorem total_commitStatements (packet : Bytes) : Total (commitStatements packet) := by
  have hfold : ∀ packetDigest, Total (foldWindowStatements packetDigest) := fun _ =>
    total_bind (total_look _) fun _ => total_bind (total_write _) fun _ => total_write _
  have hclose : Total closeGroupStatements := by
    unfold closeGroupStatements
    refine total_bind (total_look _) fun full => ?_
    split
    · exact total_bind total_emitGroupStatements fun _ => total_write _
    · exact Code.total_pure _
  unfold commitStatements setSummary setState
  refine total_bind (total_look _) fun _ => ?_
  iterate 4 refine total_bind (total_write _) fun _ => ?_
  refine total_bind (hfold _) fun _ => ?_
  iterate 4 refine total_bind (total_write _) fun _ => ?_
  exact hclose

/-- **Nothing is written before the last check.** -/
theorem atomic_checkedStatements (packet : Bytes) : Atomic (checkedStatements packet) := by
  unfold checkedStatements
  refine atomic_bind (readOnly_look _) fun _ => ?_
  repeat refine atomic_bind (readOnly_check _) fun _ => ?_
  exact (total_commitStatements packet).atomic

/-- The seven checks in a row are `checkPacket`. -/
theorem checkedStatements_eq (packet : Bytes) :
    checkedStatements packet = (do
      let state ← look fun memory => memory.state
      check (checkPacket state packet)
      commitStatements packet) := by
  simp only [checkedStatements, checkPacket, Code.check_bind, bind_assoc]

/-- **The statements compute `ladderStep`.** -/
theorem exec_stepStatements {memory : Memory} (packet : Bytes)
    (h : memory.out.groupRecord.length = groupRecordBytes) :
    (stepStatements packet).exec memory
      = ((ladderStep memory.state packet memory.out).1,
          { state := (ladderStep memory.state packet memory.out).2.1
            out := (ladderStep memory.state packet memory.out).2.2 }) := by
  unfold stepStatements setReady ladderStep
  rw [Code.exec_write_bind, checkedStatements_eq, Code.exec_look_bind]
  dsimp only
  rcases hcheck : checkPacket memory.state packet with e | u
  · rw [Code.exec_bind_error (Code.exec_check _ _)]
  · rw [Code.exec_bind_ok (Code.exec_check _ _)]
    have hcommit := @exec_commitStatements
      ⟨memory.state, { memory.out with groupReady := false }⟩ packet h
    rw [hcommit, acceptOut]
    dsimp only
    split
    · rename_i haccept
      rw [haccept]
      rfl
    · rename_i haccept
      rw [haccept]
      rfl

/-! ## A refused call -/

/-- The memory with the ready flag cleared. -/
def Memory.clearReady (memory : Memory) : Memory :=
  { memory with out := { memory.out with groupReady := false } }

/-- The ready flag is cleared before anything is read. -/
theorem exec_clearReady (memory : Memory) (packet : Bytes) :
    (stepStatements packet).exec memory.clearReady = (stepStatements packet).exec memory := by
  unfold stepStatements setReady
  rw [Code.exec_write_bind, Code.exec_write_bind, Memory.clearReady]

/-- A call that returns early has cleared the flag and written nothing else. -/
theorem exec_error {memory memory' : Memory} {packet : Bytes} {fault : Fault}
    (h : (stepStatements packet).exec memory = (.error fault, memory')) :
    memory' = memory.clearReady := by
  unfold stepStatements setReady at h
  rw [Code.exec_write_bind] at h
  exact atomic_checkedStatements packet _ fault memory' h

/-- A caller offers packets one after the other, whatever the calls return. -/
def execSteps : List Bytes → Memory → List (Except Fault Unit) × Memory
  | [], memory => ([], memory)
  | packet :: rest, memory =>
      let after := (stepStatements packet).exec memory
      let later := execSteps rest after.2
      (after.1 :: later.1, later.2)

theorem execSteps_clearReady (memory : Memory) (packet : Bytes) (rest : List Bytes) :
    execSteps (packet :: rest) memory.clearReady = execSteps (packet :: rest) memory := by
  rw [execSteps, execSteps, exec_clearReady]

/-- `packets` were offered in this order and the calls that accepted took the packets `accepted`;
every other call returned an error code. -/
inductive Offered : Memory → List Bytes → List Bytes → Memory → Prop where
  | done {memory : Memory} : Offered memory [] [] memory
  | accept {memory memory' last : Memory} {packet : Bytes} {packets accepted : List Bytes} :
      (stepStatements packet).exec memory = (.ok (), memory') →
      Offered memory' packets accepted last →
      Offered memory (packet :: packets) (packet :: accepted) last
  | refuse {memory memory' last : Memory} {packet : Bytes} {packets accepted : List Bytes}
      {e : LadderError} :
      (stepStatements packet).exec memory = (.error (.rejected e), memory') →
      Offered memory' packets accepted last →
      Offered memory (packet :: packets) accepted last

/-- **Refused packets are invisible.** What a run leaves is what its accepted packets alone
leave, but for the ready flag. -/
theorem offered_accepted {memory last : Memory} {packets accepted : List Bytes}
    (h : Offered memory packets accepted last) :
    ∃ last', Offered memory accepted accepted last' ∧ last'.clearReady = last.clearReady := by
  have hclear : ∀ {memory last : Memory} {packets : List Bytes},
      Offered memory.clearReady packets packets last →
        ∃ last', Offered memory packets packets last' ∧ last'.clearReady = last.clearReady := by
    intro memory last packets hrun
    rcases packets with _ | ⟨packet, rest⟩
    · cases hrun
      exact ⟨memory, .done, rfl⟩
    · refine ⟨last, ?_, rfl⟩
      cases hrun with
      | accept hstep hrest =>
          rw [exec_clearReady] at hstep
          exact .accept hstep hrest
      | refuse hstep hrest =>
          rw [exec_clearReady] at hstep
          exact .refuse hstep hrest
  induction h with
  | done => exact ⟨_, .done, rfl⟩
  | accept hstep _ ih =>
      obtain ⟨last', hrun, hlast⟩ := ih
      exact ⟨last', .accept hstep hrun, hlast⟩
  | refuse hstep _ ih =>
      obtain ⟨last', hrun, hlast⟩ := ih
      rw [exec_error hstep] at hrun
      obtain ⟨last'', hrun'', hlast''⟩ := hclear hrun
      exact ⟨last'', hrun'', hlast''.trans hlast⟩

end AttestedCompute.Ladder
