import AttestedCompute.Finite.Certificate
import AttestedCompute.Lib.Threaded

/-!
# The admissible moduli of Proposition 12.2.4

Every `q` below the split and every multiple of 210 from there to the end. `prop1224_next_q` is a
partial successor: it changes its stride at the split and returns the end, which is not itself
admissible, behind the last modulus.
-/

namespace AttestedCompute.Finite

open Fallible

def PROP1224_Q_SPLIT : Int := 3300000000

def PROP1224_Q_END : Int := 22000000000

def PROP1224_DIVISOR : Int := 210

def prop1224FirstExtensionQ : Int := PROP1224_Q_SPLIT + (-PROP1224_Q_SPLIT) % PROP1224_DIVISOR

def prop1224QIsAdmissible (q : Int) : Checked Bool := do
  checkInt "q" q 1
  pure (decide (q < PROP1224_Q_SPLIT ∨ (q < PROP1224_Q_END ∧ q % PROP1224_DIVISOR = 0)))

/-- Return the exact next admissible q, or the end sentinel. -/
def prop1224NextQ (q : Int) : Checked Int := do
  checkInt "q" q 1
  let admissible ← prop1224QIsAdmissible q
  refuseIf (admissible = false)
    (printing q ("q=" ++ toString q ++ " is not in the Proposition 12.2.4 source range"))
  if q < PROP1224_Q_SPLIT - 1 then pure (q + 1)
  else if q < PROP1224_Q_SPLIT then pure prop1224FirstExtensionQ
  else
    let candidate := q + PROP1224_DIVISOR
    pure (if candidate < PROP1224_Q_END then candidate else PROP1224_Q_END)

def prop1224SourceQCount : Int :=
  let first := prop1224FirstExtensionQ
  let extension := (PROP1224_Q_END - 1 - first) / PROP1224_DIVISOR + 1
  PROP1224_Q_SPLIT - 1 + extension

/-! ## The moduli and their successor -/

/-- The moduli of the source: all below the split, and the multiples of 210 up to the end. -/
def Admissible (q : Int) : Prop :=
  (1 ≤ q ∧ q < PROP1224_Q_SPLIT) ∨
    (PROP1224_Q_SPLIT ≤ q ∧ q < PROP1224_Q_END ∧ PROP1224_DIVISOR ∣ q)

/-- The successor of an admissible modulus. -/
def successor (q : Int) : Int :=
  if q < PROP1224_Q_SPLIT - 1 then q + 1
  else if q < PROP1224_Q_SPLIT then prop1224FirstExtensionQ
  else if q + PROP1224_DIVISOR < PROP1224_Q_END then q + PROP1224_DIVISOR
  else PROP1224_Q_END

/-- How many moduli are below the given one. -/
def modulusRank (q : Int) : Int :=
  if q < PROP1224_Q_SPLIT then q - 1
  else PROP1224_Q_SPLIT - 1
    + (q - prop1224FirstExtensionQ + (PROP1224_DIVISOR - 1)) / PROP1224_DIVISOR

theorem firstExtensionQ_eq : prop1224FirstExtensionQ = 3300000060 := by decide

theorem sourceQCount_eq : prop1224SourceQCount = 3389047618 := by decide

theorem admissible_iff {q : Int} :
    Admissible q ↔ (1 ≤ q ∧ q < 3300000000) ∨ (3300000000 ≤ q ∧ q < 22000000000 ∧ q % 210 = 0) := by
  unfold Admissible PROP1224_Q_SPLIT PROP1224_Q_END PROP1224_DIVISOR
  omega

theorem successor_eq (q : Int) :
    successor q = if q < 3299999999 then q + 1 else if q < 3300000000 then 3300000060
      else if q + 210 < 22000000000 then q + 210 else 22000000000 := by
  unfold successor PROP1224_Q_SPLIT PROP1224_Q_END PROP1224_DIVISOR
  rw [firstExtensionQ_eq]
  rfl

theorem qIsAdmissible_ok {q : Int} :
    prop1224QIsAdmissible q = .ok true ↔ Admissible q := by
  unfold prop1224QIsAdmissible checkInt PROP1224_Q_SPLIT PROP1224_Q_END PROP1224_DIVISOR
  rw [admissible_iff]
  simp only [bind_ok, failIf_ok, pure_ok, decide_eq_true_eq]
  constructor
  · intro h
    obtain ⟨_, hmin, hq⟩ := h
    omega
  · intro h
    exact ⟨(), by omega, by omega⟩

theorem nextQ_ok {q next : Int} :
    prop1224NextQ q = .ok next ↔ Admissible q ∧ next = successor q := by
  have hvalue : (if q < PROP1224_Q_SPLIT - 1 then (pure (q + 1) : Checked Int)
      else if q < PROP1224_Q_SPLIT then pure prop1224FirstExtensionQ
      else pure (if q + PROP1224_DIVISOR < PROP1224_Q_END then q + PROP1224_DIVISOR
        else PROP1224_Q_END)) = pure (successor q) := by
    unfold successor
    split
    · rfl
    split
    · rfl
    · rfl
  unfold prop1224NextQ
  simp only [bind_ok, refuseIf_ok, Bool.not_eq_false, hvalue, pure_ok]
  constructor
  · intro h
    obtain ⟨_, _, admissible, hadmissible, _, rfl, h⟩ := h
    exact ⟨qIsAdmissible_ok.mp hadmissible, h.symm⟩
  · intro h
    obtain ⟨hadmissible, rfl⟩ := h
    have hmin := admissible_iff.mp hadmissible
    have hcheck : checkInt "q" q 1 = .ok () := failIf_ok.mpr (by omega)
    exact ⟨(), hcheck, true, qIsAdmissible_ok.mpr hadmissible, (), rfl, rfl⟩

/-- No modulus stands between a modulus and its successor. -/
theorem eq_of_between {q p : Int} (hq : Admissible q) (hp : Admissible p) (hle : q ≤ p)
    (hlt : p < successor q) : p = q := by
  rw [admissible_iff] at hq hp
  rw [successor_eq] at hlt
  split_ifs at hlt <;> omega

theorem lt_successor {q : Int} (hq : Admissible q) : q < successor q := by
  rw [admissible_iff] at hq
  rw [successor_eq]
  split_ifs <;> omega

/-- The successor is a modulus or the end. -/
theorem successor_admissible {q : Int} (hq : Admissible q) :
    Admissible (successor q) ∨ successor q = PROP1224_Q_END := by
  rw [admissible_iff] at hq ⊢
  rw [successor_eq]
  unfold PROP1224_Q_END
  split_ifs <;> omega

theorem rank_successor {q : Int} (hq : Admissible q) :
    modulusRank (successor q) = modulusRank q + 1 := by
  rw [admissible_iff] at hq
  unfold modulusRank PROP1224_Q_SPLIT PROP1224_DIVISOR
  rw [firstExtensionQ_eq, successor_eq]
  split_ifs <;> omega

/-! ## Threads of moduli -/

/-- **A thread from 1 to the end is the whole schedule.** -/
theorem mem_thread_iff {qs : List Int} (hadmissible : ∀ q ∈ qs, Admissible q)
    (h : Threaded id successor 1 qs PROP1224_Q_END) (q : Int) : q ∈ qs ↔ Admissible q := by
  constructor
  · exact hadmissible q
  · intro hq
    have hrange : q ∈ Set.Ico 1 PROP1224_Q_END := by
      have := admissible_iff.mp hq
      refine ⟨by omega, ?_⟩
      unfold PROP1224_Q_END
      omega
    obtain ⟨p, hp, hle, hlt⟩ :=
      (h.exists_mem_iff (fun p hp => lt_successor (hadmissible p hp)) q).mpr hrange
    rw [eq_of_between (hadmissible p hp) hq hle hlt]
    exact hp

theorem thread_sorted {qs : List Int} {start stop : Int} (hadmissible : ∀ q ∈ qs, Admissible q)
    (h : Threaded id successor start qs stop) : qs.Pairwise (· < ·) := by
  refine (h.pairwise_le fun q hq => lt_successor (hadmissible q hq)).imp_of_mem ?_
  intro a b ha _ hab
  exact (lt_successor (hadmissible a ha)).trans_le hab

theorem thread_length {qs : List Int} {start stop : Int} (hadmissible : ∀ q ∈ qs, Admissible q)
    (h : Threaded id successor start qs stop) :
    modulusRank stop = modulusRank start + qs.length := by
  induction qs generalizing start with
  | nil => rw [h, List.length_nil, Nat.cast_zero, add_zero]
  | cons q qs ih =>
      obtain ⟨rfl, hrest⟩ := h
      rw [ih (fun p hp => hadmissible p (List.mem_cons_of_mem q hp)) hrest,
        rank_successor (hadmissible q List.mem_cons_self), List.length_cons]
      rw [id, Nat.cast_add, Nat.cast_one]
      ring

/-- **A thread from 1 to the end has the closed-form number of rows.** -/
theorem thread_length_source {qs : List Int} (hadmissible : ∀ q ∈ qs, Admissible q)
    (h : Threaded id successor 1 qs PROP1224_Q_END) : (qs.length : Int) = prop1224SourceQCount := by
  have hlength := thread_length hadmissible h
  have hstart : modulusRank 1 = 0 := by decide
  have hstop : modulusRank PROP1224_Q_END = prop1224SourceQCount := by decide
  omega

/-- The next moduli, one after the other. -/
def scheduleFrom : Nat → Int → List Int
  | 0, _ => []
  | count + 1, q => q :: scheduleFrom count (successor q)

theorem scheduleFrom_spec {count : Nat} {q : Int} (hq : Admissible q ∨ q = PROP1224_Q_END)
    (hcount : modulusRank q + count = prop1224SourceQCount) :
    (∀ p ∈ scheduleFrom count q, Admissible p) ∧
      Threaded id successor q (scheduleFrom count q) PROP1224_Q_END := by
  induction count generalizing q with
  | zero =>
      refine ⟨fun p hp => (by cases hp), ?_⟩
      rcases hq with hq | rfl
      · -- a modulus has fewer moduli below it than there are
        rw [sourceQCount_eq] at hcount
        rw [admissible_iff] at hq
        unfold modulusRank PROP1224_Q_SPLIT PROP1224_DIVISOR at hcount
        rw [firstExtensionQ_eq] at hcount
        split_ifs at hcount <;> omega
      · exact rfl
  | succ count ih =>
      have hmodulus : Admissible q := by
        rcases hq with hq | rfl
        · exact hq
        · have hstop : modulusRank PROP1224_Q_END = prop1224SourceQCount := by decide
          omega
      have hrank := rank_successor hmodulus
      obtain ⟨hmem, hthread⟩ := ih (successor_admissible hmodulus) (by push_cast at hcount; omega)
      refine ⟨fun p hp => ?_, rfl, hthread⟩
      rcases List.mem_cons.mp hp with rfl | hp
      · exact hmodulus
      · exact hmem p hp

end AttestedCompute.Finite
