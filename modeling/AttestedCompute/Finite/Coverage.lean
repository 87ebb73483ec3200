import AttestedCompute.Finite.Window

/-!
# The chain of window chunks

Each chunk lists windows of consecutive moduli and hands the next modulus over to the chunk behind
it. A chain that begins at 1 and ends at the end sentinel therefore runs through every admissible
modulus once, and its number of rows is the closed form that the verifier compares it with.
-/

namespace AttestedCompute.Finite

open Fallible

def PROP1224_ATOM : String := "helfgott-prop-12-2-4"

def PROP1224_ALGORITHM : String := "prop1224_interval_window_stream_v1"

def PROP1224_SEMANTICS_STATUS : String :=
  "structural-only: outward transcendental enclosures are supplied, not recomputed"

/-- A hash-linked consecutive sequence in the exact admissible-q order. -/
structure Prop1224Chunk where
  firstQ : Int
  nextQ : Int
  windows : List Prop1224Window
  previousHash : Text
  recordHash : Text

def Prop1224Chunk.body (chunk : Prop1224Chunk) : Json :=
  Json.object [
    ("algorithm", .str (Text.ofString PROP1224_ALGORITHM)),
    ("atom", .str (Text.ofString PROP1224_ATOM)),
    ("first_q", .int chunk.firstQ),
    ("next_q", .int chunk.nextQ),
    ("previous_hash", .str chunk.previousHash),
    ("semantics_status", .str (Text.ofString PROP1224_SEMANTICS_STATUS)),
    ("windows", .arr (chunk.windows.map Prop1224Window.body))]

def Prop1224Chunk.recomputedHash (chunk : Prop1224Chunk) : Checked Text := sha256 chunk.body

/-- The loop over the windows: the modulus that comes next and the number of pairs. -/
def verifyWindows : Nat → Int → Nat → List Prop1224Window → Checked (Int × Nat)
  | _, expectedQ, pairs, [] => pure (expectedQ, pairs)
  | index, expectedQ, pairs, window :: rest => do
      failIf (window.q ≠ expectedQ)
        ("q row " ++ toString index ++ " breaks exact scheduler coverage")
      let rows ← verifyProp1224Window window
      let next ← prop1224NextQ window.q
      verifyWindows (index + 1) next (pairs + rows) rest

/-- `verify_prop1224_chunk` -/
def verifyProp1224Chunk (chunk : Prop1224Chunk) : Checked (Nat × Nat) := do
  checkInt "chunk.first_q" chunk.firstQ 1
  checkInt "chunk.next_q" chunk.nextQ 1
  checkDigest "chunk.previous_hash" chunk.previousHash
  checkDigest "chunk.record_hash" chunk.recordHash
  let hash ← chunk.recomputedHash
  failIf (hash ≠ chunk.recordHash) "Proposition 12.2.4 chunk hash is incorrect"
  match chunk.windows with
  | [] => .error (.campaign "Proposition 12.2.4 chunks may not be empty")
  | first :: _ => do
      failIf (chunk.firstQ ≠ first.q) "chunk first_q does not match its first row"
      let (expectedQ, pairs) ← verifyWindows 0 chunk.firstQ 0 chunk.windows
      failIf (chunk.nextQ ≠ expectedQ) "chunk next_q does not match the exact scheduler"
      pure (chunk.windows.length, pairs)

structure Prop1224Verification where
  firstQ : Int
  nextQ : Int
  chunks : Nat
  qRows : Nat
  pairs : Nat
  finalHash : Text
  fullSourceQCoverage : Bool

structure Prop1224Options where
  expectedFirstQ : Int := 1
  expectedNextQ : Option Int := none

/-- What the loop over the chunks carries. -/
structure Prop1224Walk where
  previous : Prop1224Chunk
  chunkCount : Nat
  qRows : Nat
  pairs : Nat

/-- The loop over the chunks behind the first one. -/
def walkProp1224 : Nat → Prop1224Walk → List Prop1224Chunk → Checked Prop1224Walk
  | _, walk, [] => pure walk
  | index, walk, chunk :: rest => do
      failIf (chunk.firstQ ≠ walk.previous.nextQ)
        ("chunk " ++ toString index ++ " breaks q-range coverage")
      failIf (chunk.previousHash ≠ walk.previous.recordHash)
        ("chunk " ++ toString index ++ " breaks the hash chain")
      let (rows, pairs) ← verifyProp1224Chunk chunk
      walkProp1224 (index + 1)
        ⟨chunk, walk.chunkCount + 1, walk.qRows + rows, walk.pairs + pairs⟩ rest

def checkOptional (name : String) (value : Option Int) : Checked Unit :=
  match value with
  | none => .ok ()
  | some value => checkInt name value 1

/-- Every check of `verify_prop1224_chain` before the last one: the first chunk, and the state of
the loop at its end. -/
def runProp1224Chain (options : Prop1224Options) (chunks : List Prop1224Chunk) :
    Checked (Prop1224Chunk × Prop1224Walk) := do
  checkInt "expected_first_q" options.expectedFirstQ 1
  checkOptional "expected_next_q" options.expectedNextQ
  match chunks with
  | [] => .error (.campaign "Proposition 12.2.4 certificate must have at least one chunk")
  | first :: rest => do
      failIf (first.firstQ ≠ options.expectedFirstQ) "certificate begins at the wrong q"
      failIf (first.previousHash ≠ Arithmetic.ZERO_SHA256)
        "certificate has a nonzero initial predecessor hash"
      let (rows, pairs) ← verifyProp1224Chunk first
      let walk ← walkProp1224 1 ⟨first, 1, rows, pairs⟩ rest
      failIf (∃ next ∈ options.expectedNextQ, walk.previous.nextQ ≠ next)
        "certificate ends at the wrong next-q state"
      pure (first, walk)

/-- The result that is returned. -/
def prop1224Verification (run : Prop1224Chunk × Prop1224Walk) : Prop1224Verification where
  firstQ := run.1.firstQ
  nextQ := run.2.previous.nextQ
  chunks := run.2.chunkCount
  qRows := run.2.qRows
  pairs := run.2.pairs
  finalHash := run.2.previous.recordHash
  fullSourceQCoverage := run.1.firstQ = 1 && run.2.previous.nextQ = PROP1224_Q_END

/-- Check exact structural coverage without upgrading analytic semantics. -/
def verifyProp1224Chain (options : Prop1224Options) (chunks : List Prop1224Chunk) :
    Checked Prop1224Verification := do
  let run ← runProp1224Chain options chunks
  let result := prop1224Verification run
  failIf (result.fullSourceQCoverage = true ∧ (result.qRows : Int) ≠ prop1224SourceQCount)
    "full source q coverage has an inconsistent exact row count"
  pure result

/-! ## Chunks and chains thread the moduli -/

/-- The moduli of the windows of a chain, in order. -/
def chainWindows (chunks : List Prop1224Chunk) : List Prop1224Window :=
  chunks.flatMap Prop1224Chunk.windows

/-- Windows that are accepted and whose moduli follow one another. -/
structure Accepted (start : Int) (windows : List Prop1224Window) (stop : Int) : Prop where
  covers : ∀ window ∈ windows, Covers window
  threaded : Threaded id successor start (windows.map Prop1224Window.q) stop

theorem Accepted.append {start middle stop : Int} {ws vs : List Prop1224Window}
    (hw : Accepted start ws middle) (hv : Accepted middle vs stop) :
    Accepted start (ws ++ vs) stop := by
  refine ⟨fun window hmem => ?_, ?_⟩
  · rcases List.mem_append.mp hmem with h | h
    · exact hw.covers window h
    · exact hv.covers window h
  · rw [List.map_append]
    exact Threaded.append_iff.mpr ⟨middle, hw.threaded, hv.threaded⟩

theorem verifyWindows_accepted {index pairs : Nat} {start : Int} {windows : List Prop1224Window}
    {stop : Int} {total : Nat} (h : verifyWindows index start pairs windows = .ok (stop, total)) :
    Accepted start windows stop := by
  induction windows generalizing index start pairs with
  | nil =>
      rw [verifyWindows, pure_ok, Prod.mk.injEq] at h
      exact ⟨fun window hmem => (by cases hmem), h.1⟩
  | cons window rest ih =>
      simp only [verifyWindows, bind_ok, failIf_ok, not_not] at h
      obtain ⟨_, rfl, rows, hwindow, next, hnext, hrest⟩ := h
      obtain ⟨_, rfl⟩ := nextQ_ok.mp hnext
      have hih := ih hrest
      refine ⟨fun w hw => ?_, rfl, hih.threaded⟩
      rcases List.mem_cons.mp hw with rfl | hw
      · exact verifyWindow_covers hwindow
      · exact hih.covers w hw

theorem verifyChunk_accepted {chunk : Prop1224Chunk} {rows pairs : Nat}
    (h : verifyProp1224Chunk chunk = .ok (rows, pairs)) :
    Accepted chunk.firstQ chunk.windows chunk.nextQ ∧ rows = chunk.windows.length := by
  simp only [verifyProp1224Chunk, bind_ok] at h
  obtain ⟨_, _, _, _, _, _, _, _, hash, _, _, _, h⟩ := h
  cases hwindows : chunk.windows with
  | nil =>
      rw [hwindows] at h
      cases h
  | cons first rest =>
      rw [hwindows] at h
      simp only [bind_ok, failIf_ok, pure_ok, not_not, Prod.exists, Prod.mk.injEq] at h
      obtain ⟨_, _, expectedQ, total, hloop, _, rfl, rfl, _⟩ := h
      exact ⟨verifyWindows_accepted hloop, rfl⟩

/-- **The loop over the chunks threads what it has seen.** -/
theorem walk_accepted {index : Nat} {start : Int} {seen : List Prop1224Window}
    {walk walk' : Prop1224Walk} {chunks : List Prop1224Chunk}
    (hseen : Accepted start seen walk.previous.nextQ) (hrows : walk.qRows = seen.length)
    (h : walkProp1224 index walk chunks = .ok walk') :
    Accepted start (seen ++ chainWindows chunks) walk'.previous.nextQ ∧
      walk'.qRows = (seen ++ chainWindows chunks).length := by
  induction chunks generalizing index walk seen with
  | nil =>
      rw [walkProp1224, pure_ok] at h
      rw [chainWindows, List.flatMap_nil, List.append_nil, ← h]
      exact ⟨hseen, hrows⟩
  | cons chunk rest ih =>
      simp only [walkProp1224, bind_ok, failIf_ok, not_not, Prod.exists] at h
      obtain ⟨_, hfirst, _, _, rows, pairs, hchunk, hrest⟩ := h
      obtain ⟨haccepted, rfl⟩ := verifyChunk_accepted hchunk
      rw [hfirst] at haccepted
      have hnext := hseen.append haccepted
      have := ih hnext (by rw [List.length_append, hrows]) hrest
      rwa [List.append_assoc] at this

theorem runChain_accepted {options : Prop1224Options} {chunks : List Prop1224Chunk}
    {first : Prop1224Chunk} {walk : Prop1224Walk}
    (h : runProp1224Chain options chunks = .ok (first, walk)) :
    Accepted first.firstQ (chainWindows chunks) walk.previous.nextQ ∧
      walk.qRows = (chainWindows chunks).length := by
  simp only [runProp1224Chain, bind_ok] at h
  obtain ⟨_, _, _, _, h⟩ := h
  cases chunks with
  | nil => cases h
  | cons chunk rest =>
      simp only [bind_ok, pure_ok, Prod.exists, Prod.mk.injEq] at h
      obtain ⟨_, _, _, _, rows, pairs, hchunk, walk', hwalk, _, _, rfl, rfl⟩ := h
      obtain ⟨haccepted, hrows⟩ := verifyChunk_accepted hchunk
      have := walk_accepted haccepted hrows hwalk
      rwa [chainWindows, List.flatMap_cons]

/-! ## The schedule of the source -/

/-- What a chain with full coverage says. -/
structure SourceCoverage (windows : List Prop1224Window) : Prop where
  increasing : (windows.map Prop1224Window.q).Pairwise (· < ·)
  exactly : ∀ q, q ∈ windows.map Prop1224Window.q ↔ Admissible q
  covers : ∀ window ∈ windows, Covers window

theorem Accepted.admissible {start stop : Int} {windows : List Prop1224Window}
    (h : Accepted start windows stop) :
    ∀ q ∈ windows.map Prop1224Window.q, Admissible q := by
  intro q hq
  obtain ⟨window, hwindow, rfl⟩ := List.mem_map.mp hq
  exact (h.covers window hwindow).admissible

theorem Accepted.sourceCoverage {windows : List Prop1224Window}
    (h : Accepted 1 windows PROP1224_Q_END) : SourceCoverage windows :=
  ⟨thread_sorted h.admissible h.threaded, mem_thread_iff h.admissible h.threaded, h.covers⟩

/-- A run with full coverage has the row count that the verifier expects. -/
theorem runChain_rows {options : Prop1224Options} {chunks : List Prop1224Chunk}
    {run : Prop1224Chunk × Prop1224Walk} (h : runProp1224Chain options chunks = .ok run)
    (hfull : (prop1224Verification run).fullSourceQCoverage = true) :
    Accepted 1 (chainWindows chunks) PROP1224_Q_END ∧
      ((prop1224Verification run).qRows : Int) = prop1224SourceQCount := by
  obtain ⟨first, walk⟩ := run
  obtain ⟨haccepted, hrows⟩ := runChain_accepted h
  simp only [prop1224Verification, Bool.and_eq_true, decide_eq_true_eq] at hfull
  rw [hfull.1, hfull.2] at haccepted
  refine ⟨haccepted, ?_⟩
  have hlength := thread_length_source haccepted.admissible haccepted.threaded
  rw [List.length_map] at hlength
  exact (congrArg Nat.cast hrows).trans hlength

/-- The comparison of the row count never fails. -/
theorem verifyChain_eq (options : Prop1224Options) (chunks : List Prop1224Chunk) :
    verifyProp1224Chain options chunks =
      (runProp1224Chain options chunks).map prop1224Verification := by
  rw [verifyProp1224Chain]
  cases hrun : runProp1224Chain options chunks with
  | error e => rfl
  | ok run =>
      have hpass : ¬ ((prop1224Verification run).fullSourceQCoverage = true ∧
          ((prop1224Verification run).qRows : Int) ≠ prop1224SourceQCount) := by
        intro h
        exact h.2 (runChain_rows hrun h.1).2
      exact bind_ok.mpr ⟨run, rfl, bind_ok.mpr ⟨(), failIf_ok.mpr hpass, rfl⟩⟩

def emptyWindow (q : Int) : Prop1224Window where
  q := q
  varpiLowerNumerator := 0
  varpiLowerDenominator := 1
  varpiUpperNumerator := 0
  varpiUpperDenominator := 1
  lambdaLowerNumerator := 0
  lambdaLowerDenominator := 1
  lambdaUpperNumerator := 0
  lambdaUpperDenominator := 1
  pairs := []

theorem fraction_zero (name : String) : fraction name 0 1 = .ok 0 := by
  simp [fraction, checkInt, failIf, refuseIf, bind_ok]

theorem emptyWindow_ks (q : Int) : prop1224ConservativeKs (emptyWindow q) = .ok [] := by
  have hbounds : windowBounds (emptyWindow q) = .ok ⟨0, 0, 0, 0⟩ := by
    simp [windowBounds, emptyWindow, fraction_zero, failIf, refuseIf, bind_ok]
  rw [prop1224ConservativeKs, hbounds]
  rfl

theorem verify_emptyWindow {q : Int} (hq : Admissible q) :
    verifyProp1224Window (emptyWindow q) = .ok 0 := by
  have hmin := admissible_iff.mp hq
  have hcheck : ∀ name, checkInt name q 1 = .ok () := fun name => failIf_ok.mpr (by omega)
  simp only [verifyProp1224Window, bind_ok]
  refine ⟨(), hcheck _, true, qIsAdmissible_ok.mpr hq, (), rfl, (), rfl, [],
    emptyWindow_ks q, (), rfl, [], ?_, (), rfl, rfl⟩
  simp only [ramareGPrefixes, bind_ok]
  exact ⟨(), hcheck _, (), rfl, rfl⟩

/-- Empty windows whose moduli follow one another pass the loop. -/
theorem verifyWindows_empty {index : Nat} {start stop : Int} {qs : List Int} (pairs : Nat)
    (hadmissible : ∀ q ∈ qs, Admissible q) (h : Threaded id successor start qs stop) :
    verifyWindows index start pairs (qs.map emptyWindow) = .ok (stop, pairs) := by
  induction qs generalizing index start pairs with
  | nil =>
      obtain rfl : start = stop := h
      rfl
  | cons q qs ih =>
      obtain ⟨rfl, hrest⟩ := h
      have hq := hadmissible q List.mem_cons_self
      rw [List.map_cons, verifyWindows]
      simp only [bind_ok, failIf_ok, not_not]
      exact ⟨(), rfl, 0, verify_emptyWindow hq, successor q, nextQ_ok.mpr ⟨hq, rfl⟩,
        ih _ (fun p hp => hadmissible p (List.mem_cons_of_mem q hp)) hrest⟩

theorem fits_emptyWindow {q : Int} (hq : Admissible q) :
    Json.fits (emptyWindow q).body = true := by
  have hbound := admissible_iff.mp hq
  have hwords : Json.fits (.arr ([(0 : Int), 1, 0, 1].map .int)) = true := by
    refine Json.fits_arr.mpr fun item hitem => ?_
    obtain ⟨n, hn, rfl⟩ := List.mem_map.mp hitem
    simp only [List.mem_cons, List.not_mem_nil, or_false] at hn
    exact Json.fits_int_of_word (by omega)
  rw [Prop1224Window.body, Json.fits_object]
  intro member hmember
  simp only [List.mem_cons, List.not_mem_nil, or_false] at hmember
  rcases hmember with rfl | rfl | rfl | rfl
  · exact hwords
  · exact Json.fits_arr.mpr fun item hitem => by cases hitem
  · refine Json.fits_int_of_word ?_
    dsimp only [emptyWindow]
    omega
  · exact hwords

/-- All moduli, each with the empty window, under a given hash. -/
def emptyChunk (count : Nat) (hash : Text) : Prop1224Chunk where
  firstQ := 1
  nextQ := PROP1224_Q_END
  windows := (scheduleFrom count 1).map emptyWindow
  previousHash := Arithmetic.ZERO_SHA256
  recordHash := hash

theorem fits_emptyChunk {count : Nat} (hash : Text)
    (hadmissible : ∀ q ∈ scheduleFrom count 1, Admissible q) :
    Json.fits (emptyChunk count hash).body = true := by
  rw [Prop1224Chunk.body, Json.fits_object]
  intro member hmember
  simp only [List.mem_cons, List.not_mem_nil, or_false] at hmember
  rcases hmember with rfl | rfl | rfl | rfl | rfl | rfl | rfl
  · rfl
  · rfl
  · exact Json.fits_int_of_word (show Int.natAbs 1 < 2 ^ 64 by decide)
  · exact Json.fits_int_of_word (show PROP1224_Q_END.natAbs < 2 ^ 64 by decide)
  · rfl
  · rfl
  · refine Json.fits_arr.mpr fun item hitem => ?_
    obtain ⟨window, hwindow, rfl⟩ := List.mem_map.mp hitem
    obtain ⟨q, hq, rfl⟩ := List.mem_map.mp hwindow
    exact fits_emptyWindow (hadmissible q hq)

/-- A schedule of all moduli is a chain with full coverage. -/
theorem emptyChain_verifies {count : Nat} (hcount : (count : Int) = prop1224SourceQCount) :
    ∃ hash v, verifyProp1224Chain {} [emptyChunk count hash] = .ok v ∧
      v.fullSourceQCoverage = true := by
  have hone : Admissible 1 := admissible_iff.mpr (by omega)
  have hstart : modulusRank 1 = 0 := by decide
  obtain ⟨hadmissible, hthread⟩ :=
    @scheduleFrom_spec count 1 (.inl hone) (by rw [hstart, hcount, zero_add])
  -- the hash is not part of what it is the hash of
  obtain ⟨hash, hhash, hdigest⟩ := sha256_of_fits (fits_emptyChunk [] hadmissible)
  have hrecomputed : (emptyChunk count hash).recomputedHash = .ok hash := hhash
  obtain ⟨rest, hrest⟩ : ∃ rest, scheduleFrom count 1 = 1 :: rest := by
    cases count with
    | zero =>
        rw [sourceQCount_eq] at hcount
        omega
    | succ count => exact ⟨_, rfl⟩
  have hwindows : (emptyChunk count hash).windows = emptyWindow 1 :: rest.map emptyWindow := by
    rw [emptyChunk, hrest, List.map_cons]
  have hloop : verifyWindows 0 1 0 (emptyWindow 1 :: rest.map emptyWindow) =
      .ok (PROP1224_Q_END, 0) := by
    rw [← List.map_cons, ← hrest]
    exact verifyWindows_empty 0 hadmissible hthread
  have hchunk : verifyProp1224Chunk (emptyChunk count hash) =
      .ok ((emptyWindow 1 :: rest.map emptyWindow).length, 0) := by
    simp only [verifyProp1224Chunk, bind_ok, hwindows]
    exact ⟨(), rfl, (), rfl, (), rfl, (), failIf_ok.mpr (by rw [emptyChunk, hdigest]; simp), hash,
      hrecomputed, (), failIf_ok.mpr (not_not.mpr rfl), (), rfl, (PROP1224_Q_END, 0), hloop, (),
      failIf_ok.mpr (not_not.mpr rfl), rfl⟩
  have hrun : runProp1224Chain {} [emptyChunk count hash] = .ok (emptyChunk count hash,
      ⟨emptyChunk count hash, 1, (emptyWindow 1 :: rest.map emptyWindow).length, 0⟩) := by
    simp only [runProp1224Chain, bind_ok]
    exact ⟨(), rfl, (), rfl, (), rfl, (), failIf_ok.mpr (not_not.mpr rfl), _, hchunk, _, rfl, (),
      failIf_ok.mpr (by simp), rfl⟩
  refine ⟨hash, _, by rw [verifyChain_eq, hrun]; rfl, ?_⟩
  simp [prop1224Verification, emptyChunk]

end AttestedCompute.Finite
