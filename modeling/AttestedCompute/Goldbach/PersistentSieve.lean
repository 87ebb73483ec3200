import AttestedCompute.Goldbach.SieveAgreement

/-!
# Every segment of the persistent sieve

The invariant of the persistent sieve is stated relative to the segment it is about to
emit: each active prime up to the segment length has its offset among the dense states,
each active prime above it has one event, in the bucket of the segment that it strikes
next (`Tracks`). Activation extends the active primes and keeps the invariant; emitting
moves it on by one segment. None of the internal failures can be reached from it.
-/

namespace AttestedCompute.Goldbach

open Fallible PersistentBucketOddSieve

/-- The arguments of a sieve that its constructor accepts. -/
structure Schedule where
  firstLow : Nat
  oddCount : Nat
  segments : Nat
  primes : List Nat
  odd : firstLow % 2 = 1
  pos : 1 ≤ oddCount
  base : BasePrimes primes

namespace Schedule

variable (c : Schedule)

def ringSize : Nat := c.primes.getLast?.getD 1 / c.oddCount + 3

/-- The first odd number of a segment. -/
def low (segment : Nat) : Nat := c.firstLow + 2 * c.oddCount * segment

/-- The segment that a prime strikes next. -/
def target (segment p : Nat) : Nat := segment + offsetOf (c.low segment) p / c.oddCount

theorem low_odd (segment : Nat) : c.low segment % 2 = 1 := by
  have hodd := c.odd
  rw [low, Nat.mul_assoc]
  omega

theorem low_succ (segment : Nat) : c.low (segment + 1) = c.low segment + 2 * c.oddCount := by
  rw [low, low, Nat.mul_succ, Nat.add_assoc]

/-- No base prime is longer than the ring. -/
theorem div_lt_ringSize {p : Nat} (hp : p ∈ c.primes) : p / c.oddCount + 2 < c.ringSize := by
  have hle : p ≤ c.primes.getLast?.getD 1 := by
    obtain ⟨init, last, hlast⟩ : ∃ init last, c.primes = init ++ [last] :=
      ⟨_, _, (List.dropLast_append_getLast (List.ne_nil_of_mem hp)).symm⟩
    have hincreasing := c.base.increasing
    rw [hlast] at hp hincreasing ⊢
    rw [List.getLast?_concat, Option.getD_some]
    rcases List.mem_append.mp hp with hmem | hmem
    · exact ((List.pairwise_append.mp hincreasing).2.2 p hmem last (by simp)).le
    · exact (List.mem_singleton.mp hmem).le
  have hdiv := Nat.div_le_div_right (c := c.oddCount) hle
  rw [ringSize]
  omega

end Schedule

/-- The event of a prime stands in bucket `j`. -/
def Pending (c : Schedule) (segment p j : Nat) (event : Nat × Nat) : Prop :=
  c.target segment p < c.segments ∧ c.target segment p % c.ringSize = j
    ∧ event = (p, offsetOf (c.low segment) p % c.oddCount)

/-- The fields that the arguments of the constructor fix. -/
structure Configured (c : Schedule) (s : PersistentBucketOddSieve) : Prop where
  firstLow : s.firstLow = c.firstLow
  oddCount : s.oddCount = c.oddCount
  segments : s.segments = c.segments
  primes : s.primes = c.primes
  ringSize : s.ringSize = c.ringSize
  buckets : s.buckets.length = c.ringSize

/-- **The invariant**, at the segment that comes next. -/
structure Tracks (c : Schedule) (segment : Nat) (s : PersistentBucketOddSieve) : Prop where
  configured : Configured c s
  /-- An active prime has begun to strike by the end of the segment. -/
  begun : ∀ p ∈ c.primes.take s.activationIndex, p * p < c.low segment + 2 * c.oddCount
  dense : s.dense = ((c.primes.take s.activationIndex).filter (· ≤ c.oddCount)).map
    fun p => (p, offsetOf (c.low segment) p)
  events : ∀ j < c.ringSize, ∀ event, event ∈ s.buckets.getD j []
    ↔ ∃ p ∈ c.primes.take s.activationIndex, c.oddCount < p ∧ Pending c segment p j event

/-! ## Scheduling an event -/

theorem mem_modify_append {buckets : List (List (Nat × Nat))} {event e : Nat × Nat} {i j : Nat}
    (hi : i < buckets.length) :
    e ∈ (buckets.modify i fun bucket => bucket ++ [event]).getD j []
      ↔ e ∈ buckets.getD j [] ∨ i = j ∧ e = event := by
  simp only [List.getD_eq_getElem?_getD, List.getElem?_modify]
  by_cases hij : i = j
  · subst hij
    simp [List.getElem?_eq_getElem hi]
  · simp [hij]

section

variable {c : Schedule} {s : PersistentBucketOddSieve}

theorem schedule_configured (h : Configured c s) (target : Nat) (event : Nat × Nat) :
    Configured c (s.schedule target event) := by
  unfold schedule
  split
  · exact { h with buckets := by rw [List.length_modify, h.buckets] }
  · exact h

theorem mem_schedule (h : Configured c s) (target : Nat) (event : Nat × Nat) {j : Nat}
    (e : Nat × Nat) : e ∈ (s.schedule target event).buckets.getD j []
      ↔ e ∈ s.buckets.getD j []
        ∨ target < c.segments ∧ target % c.ringSize = j ∧ e = event := by
  unfold schedule
  have hring : 0 < c.ringSize := Nat.succ_pos _
  split
  · rename_i hlt
    rw [h.segments] at hlt
    show e ∈ (s.buckets.modify _ _).getD j [] ↔ _
    rw [h.ringSize, mem_modify_append (by rw [h.buckets]; exact Nat.mod_lt _ hring)]
    simp [hlt]
  · rename_i hlt
    rw [h.segments] at hlt
    simp [hlt]

theorem schedule_dense (target : Nat) (event : Nat × Nat) :
    (s.schedule target event).dense = s.dense := by
  unfold schedule
  split <;> rfl

theorem schedule_activationIndex (target : Nat) (event : Nat × Nat) :
    (s.schedule target event).activationIndex = s.activationIndex := by
  unfold schedule
  split <;> rfl

end

/-! ## Activation -/

theorem take_succ_of_drop {primes rest : List Nat} {k p : Nat} (h : primes.drop k = p :: rest) :
    primes.take (k + 1) = primes.take k ++ [p] ∧ primes.drop (k + 1) = rest := by
  have hp : primes[k]? = some p := by
    rw [← List.head?_drop, h]
    rfl
  constructor
  · rw [List.take_add_one, hp]
    rfl
  · rw [← List.drop_drop, h]
    rfl

section

variable {c : Schedule} {segment : Nat} {s : PersistentBucketOddSieve}

/-- What admitting a prime adds: a dense state or an event. -/
theorem admit_ok (h : Configured c s) {p : Nat} (hp : p ∈ c.primes)
    (hlt : offsetOf (c.low segment) p < p ∨ offsetOf (c.low segment) p < c.oddCount) :
    ∃ s', admitPrime s segment p (offsetOf (c.low segment) p) = .ok s' ∧ Configured c s'
      ∧ s'.activationIndex = s.activationIndex
      ∧ s'.dense = s.dense ++ (if p ≤ c.oddCount then [(p, offsetOf (c.low segment) p)] else [])
      ∧ ∀ j e, e ∈ s'.buckets.getD j []
        ↔ e ∈ s.buckets.getD j [] ∨ c.oddCount < p ∧ Pending c segment p j e := by
  unfold admitPrime
  by_cases hdense : p ≤ c.oddCount
  · -- its first multiple lies in the segment it begins in
    rw [if_pos (show p ≤ s.oddCount by rw [h.oddCount]; exact hdense),
      if_neg (by rw [h.oddCount]; omega), if_pos hdense]
    refine ⟨_, rfl, { h with }, rfl, rfl, fun j e => ?_⟩
    simp [not_lt.mpr hdense]
  · have hring := c.div_lt_ringSize hp
    have hdiv : offsetOf (c.low segment) p / c.oddCount ≤ p / c.oddCount :=
      Nat.div_le_div_right (by omega)
    rw [if_neg (show ¬ p ≤ s.oddCount by rw [h.oddCount]; exact hdense),
      if_neg (by rw [h.oddCount, h.ringSize]; omega), if_neg hdense]
    refine ⟨_, rfl, schedule_configured h _ _, schedule_activationIndex _ _, ?_, fun j e => ?_⟩
    · rw [schedule_dense, List.append_nil]
    · rw [mem_schedule h, h.oddCount]
      simp only [Pending, Schedule.target, not_le.mp hdense, true_and]

/-- **Activating a prime that begins in the segment** succeeds and keeps the invariant. -/
theorem admit_tracks (h : Tracks c segment s) {p : Nat} {rest : List Nat}
    (hdrop : c.primes.drop s.activationIndex = p :: rest)
    (hbegun : p * p < c.low segment + 2 * c.oddCount) :
    ∃ s', admitPrime { s with activationIndex := s.activationIndex + 1 } segment p
        (offsetOf (c.low segment) p) = .ok s' ∧ Tracks c segment s'
      ∧ c.primes.drop s'.activationIndex = rest := by
  obtain ⟨htake, hrest⟩ := take_succ_of_drop hdrop
  have hp : p ∈ c.primes := List.mem_of_mem_drop (i := s.activationIndex) (by rw [hdrop]; simp)
  have hlt := offsetOf_lt (c.low_odd segment) (c.base.odd p hp).2 hbegun
  obtain ⟨s', hadmit, hconfigured, hindex, hdense, hevents⟩ :=
    admit_ok (s := { s with activationIndex := s.activationIndex + 1 }) { h.configured with } hp hlt
  have hindex : s'.activationIndex = s.activationIndex + 1 := hindex
  refine ⟨s', hadmit, ⟨hconfigured, fun q hq => ?_, ?_, fun j hj e => ?_⟩, ?_⟩
  · rw [hindex, htake, List.mem_append, List.mem_singleton] at hq
    rcases hq with hq | rfl
    · exact h.begun q hq
    · exact hbegun
  · rw [hdense, hindex, htake, List.filter_append, List.map_append, ← h.dense]
    by_cases hle : p ≤ c.oddCount
    · simp [hle]
    · simp [hle]
  · rw [hevents, h.events j hj, hindex, htake]
    simp only [List.mem_append, List.mem_singleton, or_and_right, exists_or, exists_eq_left]
  · rw [hindex]
    exact hrest

theorem activate_tracks (h : Tracks c segment s) {rest : List Nat}
    (hdrop : c.primes.drop s.activationIndex = rest) :
    ∃ s', activate segment (c.low segment) (c.low segment + 2 * c.oddCount) rest s = .ok s'
      ∧ Tracks c segment s'
      ∧ ∀ p ∈ c.primes.drop s'.activationIndex, c.low segment + 2 * c.oddCount ≤ p * p := by
  induction rest generalizing s with
  | nil => exact ⟨s, rfl, h, by rw [hdrop]; simp⟩
  | cons p rest ih =>
      rw [activate]
      split
      · rename_i hbreak
        refine ⟨s, rfl, h, fun q hq => ?_⟩
        have hincreasing := c.base.increasing.sublist (List.drop_sublist s.activationIndex c.primes)
        rw [hdrop] at hq hincreasing
        rcases List.mem_cons.mp hq with rfl | hq
        · exact hbreak
        · have hpq := (List.pairwise_cons.mp hincreasing).1 q hq
          exact hbreak.trans (Nat.mul_le_mul hpq.le hpq.le)
      · rename_i hbreak
        obtain ⟨s₁, hadmit, htracks, hrest⟩ := admit_tracks h hdrop (not_le.mp hbreak)
        obtain ⟨s', hactivate, hresult⟩ := ih htracks hrest
        refine ⟨s', ?_, hresult⟩
        rw [bind_ok]
        exact ⟨s₁, hadmit, hactivate⟩

end

/-! ## The dense primes -/

/-- The `while` loop clears the progression and stops at its first term past the segment. -/
theorem markDense_spec {n p : Nat} (hp : 0 < p) {turns : Nat} {words : List Nat} {P : Nat → Prop}
    {offset : Nat} (hturns : n ≤ offset + turns) (h : BitWords.Packs WORD_BITS n words P) :
    BitWords.Packs WORD_BITS n (markDense n p turns words offset).1
        (fun i => P i ∧ ¬ ∃ k, i = offset + p * k)
      ∧ ∃ k, (markDense n p turns words offset).2 = offset + p * k ∧ n ≤ offset + p * k
        ∧ ∀ m, n ≤ offset + p * m → k ≤ m := by
  -- the loop is over: nothing of the progression is left in the segment
  have hstop : ∀ {words : List Nat} {P : Nat → Prop} {offset : Nat}, n ≤ offset →
      BitWords.Packs WORD_BITS n words P →
      BitWords.Packs WORD_BITS n words (fun i => P i ∧ ¬ ∃ k, i = offset + p * k) := by
    intro words P offset hge h
    refine h.congr fun i hi => ⟨fun hP => ⟨hP, ?_⟩, And.left⟩
    rintro ⟨k, hk⟩
    omega
  induction turns generalizing words P offset with
  | zero => exact ⟨hstop (by omega) h, 0, rfl, by omega, fun m _ => Nat.zero_le m⟩
  | succ turns ih =>
      rw [markDense]
      split
      · rename_i hlt
        have hclear : BitWords.Packs WORD_BITS n (clearBit words offset) fun i => P i ∧ i ≠ offset :=
          BitWords.packs_clear (by decide) h hlt
        obtain ⟨hwords, k, hend, hge, hfirst⟩ := 
          ih (show n ≤ offset + p + turns by omega) hclear
        refine ⟨hwords.congr fun i _ => ?_, k + 1, ?_, ?_, fun m hm => ?_⟩
        · rw [and_assoc]
          refine and_congr_right fun _ => ?_
          rw [← not_or, not_iff_not]
          constructor
          · rintro (rfl | ⟨k, rfl⟩)
            · exact ⟨0, rfl⟩
            · exact ⟨k + 1, by rw [Nat.mul_succ]; omega⟩
          · rintro ⟨k, rfl⟩
            cases k with
            | zero => exact .inl rfl
            | succ k => exact .inr ⟨k, by rw [Nat.mul_succ]; omega⟩
        · rw [hend, Nat.mul_succ]
          omega
        · rw [Nat.mul_succ]
          omega
        · cases m with
          | zero => omega
          | succ m =>
              rw [Nat.mul_succ] at hm
              have hkm := hfirst m (by omega)
              omega
      · rename_i hlt
        exact ⟨hstop (not_lt.mp hlt) h, 0, rfl, not_lt.mp hlt, fun m _ => Nat.zero_le m⟩

/-- **The dense primes of a segment** are struck, and their states move on to the next one. -/
theorem markAllDense_spec {low n : Nat} (hlow : low % 2 = 1) {primes words : List Nat}
    {P : Nat → Prop} (hodd : ∀ p ∈ primes, p % 2 = 1) (h : BitWords.Packs WORD_BITS n words P) :
    BitWords.Packs WORD_BITS n
        (markAllDense n (primes.map fun p => (p, offsetOf low p)) words).1
        (fun i => P i ∧ Unstruck primes low i)
      ∧ (markAllDense n (primes.map fun p => (p, offsetOf low p)) words).2
        = primes.map fun p => (p, offsetOf (low + 2 * n) p) := by
  induction primes generalizing words P with
  | nil => exact ⟨h.congr fun i _ => by simp [Unstruck], rfl⟩
  | cons p primes ih =>
      have hp := hodd p List.mem_cons_self
      obtain ⟨hwords, k, hend, hge, hfirst⟩ := markDense_spec (p := p) (by omega)
        (Nat.le_add_left n (offsetOf low p)) h
      obtain ⟨hrest, hstates⟩ := ih (fun q hq => hodd q (List.mem_cons_of_mem p hq)) hwords
      refine ⟨hrest.congr fun i _ => ?_, ?_⟩
      · simp only [Unstruck, List.forall_mem_cons, and_assoc, struck_iff hlow hp]
      · rw [List.map_cons, List.map_cons, markAllDense, ← hstates, hend,
          offsetOf_later hlow hp hge hfirst]

/-! ## The events -/

theorem runEvents_spec {c : Schedule} {segment : Nat} {s : PersistentBucketOddSieve}
    (h : Configured c s) {events : List (Nat × Nat)}
    (hvalid : ∀ e ∈ events, c.oddCount < e.1 ∧ e.2 < c.oddCount ∧ e.1 / c.oddCount + 2 < c.ringSize)
    (words : List Nat) :
    ∃ s', runEvents segment events s words
        = .ok (s', (events.map Prod.snd).foldl clearBit words)
      ∧ Configured c s' ∧ s'.activationIndex = s.activationIndex ∧ s'.dense = s.dense
      ∧ ∀ j e, e ∈ s'.buckets.getD j [] ↔ e ∈ s.buckets.getD j []
        ∨ ∃ done ∈ events, segment + (done.2 + done.1) / c.oddCount < c.segments
          ∧ (segment + (done.2 + done.1) / c.oddCount) % c.ringSize = j
          ∧ e = (done.1, (done.2 + done.1) % c.oddCount) := by
  induction events generalizing s words with
  | nil => exact ⟨s, rfl, h, rfl, rfl, by simp⟩
  | cons event events ih =>
      obtain ⟨prime, offset⟩ := event
      obtain ⟨hlong, hinside, hring⟩ : c.oddCount < prime ∧ offset < c.oddCount
          ∧ prime / c.oddCount + 2 < c.ringSize := hvalid (prime, offset) List.mem_cons_self
      have hpos : 0 < c.oddCount := c.pos
      have hdelta : 0 < (offset + prime) / s.oddCount
          ∧ (offset + prime) / s.oddCount < s.ringSize := by
        rw [h.oddCount, h.ringSize]
        refine ⟨Nat.div_pos (by omega) hpos, ?_⟩
        have hle : (offset + prime) / c.oddCount ≤ (c.oddCount + prime) / c.oddCount :=
          Nat.div_le_div_right (by omega)
        rw [Nat.add_div_left _ hpos] at hle
        omega
      have hcounted : Configured c { s with sparseEvents := s.sparseEvents + 1 } := { h with }
      obtain ⟨s', hrun, hconfigured, hindex, hdense, hevents⟩ := ih
        (schedule_configured hcounted (segment + (offset + prime) / s.oddCount)
          (prime, (offset + prime) % s.oddCount))
        (fun e he => hvalid e (List.mem_cons_of_mem _ he)) (clearBit words offset)
      refine ⟨s', ?_, hconfigured, ?_, ?_, fun j e => ?_⟩
      · rw [runEvents, if_neg (by rw [h.oddCount]; exact not_not.mpr ⟨hlong, hinside⟩)]
        exact (if_neg (not_not.mpr hdelta)).trans hrun
      · rw [hindex, schedule_activationIndex]
      · rw [hdense, schedule_dense]
      · rw [hevents, mem_schedule hcounted, or_assoc, h.oddCount]
        simp only [List.mem_cons, exists_eq_or_imp]

/-! ## From one segment to the next -/

section

variable {c : Schedule} {segment p : Nat}

/-- An event that will be run stands within one turn of the ring. -/
theorem div_offsetOf_lt (hp : p ∈ c.primes) (hlong : c.oddCount < p)
    (hbegun : p * p < c.low segment + 2 * c.oddCount) :
    offsetOf (c.low segment) p / c.oddCount < c.ringSize := by
  have hlt := offsetOf_lt (c.low_odd segment) (c.base.odd p hp).2 hbegun
  have hle : offsetOf (c.low segment) p / c.oddCount ≤ p / c.oddCount :=
    Nat.div_le_div_right (by omega)
  have hring := c.div_lt_ringSize hp
  omega

/-- The bucket of a segment holds the events of that segment and of no later one. -/
theorem target_slot_iff (hp : p ∈ c.primes) (hlong : c.oddCount < p)
    (hbegun : p * p < c.low segment + 2 * c.oddCount) :
    c.target segment p % c.ringSize = segment % c.ringSize
      ↔ offsetOf (c.low segment) p < c.oddCount := by
  have hring := div_offsetOf_lt hp hlong hbegun
  rw [← Nat.div_eq_zero_iff_lt c.pos, Schedule.target]
  constructor
  · intro h
    have hzero := Nat.ModEq.add_left_cancel' segment
      (show segment + offsetOf (c.low segment) p / c.oddCount ≡ segment + 0 [MOD c.ringSize] from h)
    rwa [Nat.ModEq, Nat.mod_eq_of_lt hring, Nat.zero_mod] at hzero
  · intro h
    rw [h, Nat.add_zero]

/-- A prime that strikes past the segment keeps its place. -/
theorem pending_succ_of_le (hp : p % 2 = 1) (hge : c.oddCount ≤ offsetOf (c.low segment) p)
    (j : Nat) (e : Nat × Nat) : Pending c (segment + 1) p j e ↔ Pending c segment p j e := by
  have hlater : offsetOf (c.low (segment + 1)) p = offsetOf (c.low segment) p - c.oddCount := by
    rw [c.low_succ]
    exact offsetOf_later (c.low_odd segment) hp (k := 0) hge fun m _ => Nat.zero_le m
  have htarget : c.target (segment + 1) p = c.target segment p := by
    have hdiv := Nat.div_eq_sub_div c.pos hge
    rw [Schedule.target, Schedule.target, hlater, hdiv]
    omega
  rw [Pending, Pending, htarget, hlater, ← Nat.mod_eq_sub_mod hge]

/-- A long prime that strikes in the segment is due again where the source reschedules it. -/
theorem pending_succ_of_lt (hp : p % 2 = 1) (hlong : c.oddCount < p)
    (hlt : offsetOf (c.low segment) p < c.oddCount) (j : Nat) (e : Nat × Nat) :
    Pending c (segment + 1) p j e
      ↔ segment + (offsetOf (c.low segment) p + p) / c.oddCount < c.segments
        ∧ (segment + (offsetOf (c.low segment) p + p) / c.oddCount) % c.ringSize = j
        ∧ e = (p, (offsetOf (c.low segment) p + p) % c.oddCount) := by
  have hge : c.oddCount ≤ offsetOf (c.low segment) p + p := by omega
  have hlater : offsetOf (c.low (segment + 1)) p
      = offsetOf (c.low segment) p + p - c.oddCount := by
    have hstep := offsetOf_later (c.low_odd segment) hp (n := c.oddCount) (k := 1) (by omega)
      fun m hm => by
        rcases Nat.eq_zero_or_pos m with rfl | hpos
        · omega
        · exact hpos
    rw [c.low_succ, hstep, Nat.mul_one]
  have htarget : c.target (segment + 1) p
      = segment + (offsetOf (c.low segment) p + p) / c.oddCount := by
    have hdiv := Nat.div_eq_sub_div c.pos hge
    rw [Schedule.target, hlater, hdiv]
    omega
  rw [Pending, htarget, hlater, ← Nat.mod_eq_sub_mod hge]

end

theorem mem_set_nil {buckets : List (List (Nat × Nat))} {i j : Nat} {e : Nat × Nat} :
    e ∈ (buckets.set i []).getD j [] ↔ i ≠ j ∧ e ∈ buckets.getD j [] := by
  simp only [List.getD_eq_getElem?_getD, List.getElem?_set]
  by_cases hij : i = j
  · subst hij
    simp only [if_true, ne_eq, not_true, false_and, iff_false]
    split <;> simp
  · simp [hij]

section

variable {c : Schedule} {segment : Nat} {s : PersistentBucketOddSieve}

/-- The event of a long active prime that strikes in the segment. -/
theorem mem_events (h : Tracks c segment s) (hsegment : segment < c.segments) (e : Nat × Nat) :
    e ∈ s.buckets.getD (segment % c.ringSize) [] ↔ ∃ p ∈ c.primes.take s.activationIndex,
      c.oddCount < p ∧ offsetOf (c.low segment) p < c.oddCount
        ∧ e = (p, offsetOf (c.low segment) p) := by
  rw [h.events _ (Nat.mod_lt _ (Nat.succ_pos _))]
  refine exists_congr fun p => and_congr_right fun hp => and_congr_right fun hlong => ?_
  have hslot := target_slot_iff (List.mem_of_mem_take hp) hlong (h.begun p hp)
  constructor
  · rintro ⟨-, htarget, rfl⟩
    have hlt := hslot.mp htarget
    exact ⟨hlt, by rw [Nat.mod_eq_of_lt hlt]⟩
  · rintro ⟨hlt, rfl⟩
    refine ⟨?_, hslot.mpr hlt, by rw [Nat.mod_eq_of_lt hlt]⟩
    rwa [Schedule.target, Nat.div_eq_of_lt hlt, Nat.add_zero]

/-- The words after the dense primes and the events: what no base prime strikes. -/
theorem packs_segment (h : Tracks c segment s) (hsegment : segment < c.segments)
    (hrest : ∀ p ∈ c.primes.drop s.activationIndex, c.low segment + 2 * c.oddCount ≤ p * p) :
    BitWords.Packs WORD_BITS c.oddCount
      (((s.buckets.getD (segment % c.ringSize) []).map Prod.snd).foldl clearBit
        (markAllDense c.oddCount s.dense (initialWords c.oddCount)).1)
      (Unstruck c.primes (c.low segment)) := by
  have hlow := c.low_odd segment
  have hodd : ∀ p ∈ (c.primes.take s.activationIndex).filter (· ≤ c.oddCount), p % 2 = 1 :=
    fun p hp => (c.base.odd p (List.mem_of_mem_take (List.mem_of_mem_filter hp))).2
  have hdense := (markAllDense_spec hlow hodd
    (BitWords.packs_full (w := WORD_BITS) (by decide) c.oddCount)).1
  rw [← h.dense] at hdense
  -- the events of the segment are the long primes that strike it, each of them once
  have hmem : ∀ i, i ∈ (s.buckets.getD (segment % c.ringSize) []).map Prod.snd
      ↔ i < c.oddCount ∧ ∃ p ∈ c.primes.take s.activationIndex, c.oddCount < p
        ∧ Struck p (c.low segment + 2 * i) := by
    intro i
    rw [List.mem_map]
    constructor
    · rintro ⟨e, he, rfl⟩
      obtain ⟨p, hp, hlong, hlt, rfl⟩ := (mem_events h hsegment e).mp he
      have hpodd := (c.base.odd p (List.mem_of_mem_take hp)).2
      exact ⟨hlt, p, hp, hlong, (offsetOf_isLeast hlow hpodd).1⟩
    · rintro ⟨hi, p, hp, hlong, hstruck⟩
      have hpodd := (c.base.odd p (List.mem_of_mem_take hp)).2
      obtain ⟨k, rfl⟩ := (struck_iff hlow hpodd).mp hstruck
      obtain rfl : k = 0 := by
        by_contra hk
        have hle := Nat.mul_le_mul_left p (Nat.pos_of_ne_zero hk)
        omega
      exact ⟨_, (mem_events h hsegment _).mpr ⟨p, hp, hlong, by simpa using hi, rfl⟩, by simp⟩
  have hevents := packs_clear_struck hdense hmem
  refine hevents.congr fun i hi => ?_
  have hsplit : ∀ p, p ∈ c.primes
      ↔ p ∈ c.primes.take s.activationIndex ∨ p ∈ c.primes.drop s.activationIndex := by
    intro p
    rw [← List.mem_append, List.take_append_drop]
  constructor
  · rintro ⟨⟨-, hshort⟩, hlong⟩ p hp hstruck
    rcases (hsplit p).mp hp with hp | hp
    · by_cases hle : p ≤ c.oddCount
      · exact hshort p (List.mem_filter.mpr ⟨hp, by simpa using hle⟩) hstruck
      · exact hlong ⟨p, hp, not_le.mp hle, hstruck⟩
    · exact not_struck_of_square (hrest p hp) hi hstruck
  · intro hall
    refine ⟨⟨trivial, fun p hp => hall p (List.mem_of_mem_take (List.mem_of_mem_filter hp))⟩, ?_⟩
    rintro ⟨p, hp, -, hstruck⟩
    exact hall p (List.mem_of_mem_take hp) hstruck

/-- The buckets after the events of a segment hold what comes after it. -/
theorem pending_iff (h : Tracks c segment s) (hsegment : segment < c.segments) {j : Nat}
    (hj : j < c.ringSize) (e : Nat × Nat) :
    (e ∈ (s.buckets.set (segment % c.ringSize) []).getD j []
        ∨ ∃ done ∈ s.buckets.getD (segment % c.ringSize) [],
          segment + (done.2 + done.1) / c.oddCount < c.segments
            ∧ (segment + (done.2 + done.1) / c.oddCount) % c.ringSize = j
            ∧ e = (done.1, (done.2 + done.1) % c.oddCount))
      ↔ ∃ p ∈ c.primes.take s.activationIndex, c.oddCount < p ∧ Pending c (segment + 1) p j e := by
  rw [mem_set_nil, h.events j hj]
  constructor
  · rintro (⟨hne, p, hp, hlong, hpending⟩ | ⟨done, hdone, hnext⟩)
    · have hmem := List.mem_of_mem_take hp
      refine ⟨p, hp, hlong, (pending_succ_of_le (c.base.odd p hmem).2 ?_ j e).mpr hpending⟩
      refine not_lt.mp fun hlt => hne ?_
      rw [← hpending.2.1]
      exact ((target_slot_iff hmem hlong (h.begun p hp)).mpr hlt).symm
    · obtain ⟨p, hp, hlong, hlt, rfl⟩ := (mem_events h hsegment done).mp hdone
      have hodd := (c.base.odd p (List.mem_of_mem_take hp)).2
      exact ⟨p, hp, hlong, (pending_succ_of_lt hodd hlong hlt j e).mpr hnext⟩
  · rintro ⟨p, hp, hlong, hpending⟩
    have hmem := List.mem_of_mem_take hp
    have hodd := (c.base.odd p hmem).2
    have hslot := target_slot_iff hmem hlong (h.begun p hp)
    by_cases hlt : offsetOf (c.low segment) p < c.oddCount
    · exact .inr ⟨_, (mem_events h hsegment _).mpr ⟨p, hp, hlong, hlt, rfl⟩,
        (pending_succ_of_lt hodd hlong hlt j e).mp hpending⟩
    · have hpending := (pending_succ_of_le hodd (not_lt.mp hlt) j e).mp hpending
      refine .inl ⟨fun hslotj => hlt (hslot.mp ?_), p, hp, hlong, hpending⟩
      rw [hpending.2.1, hslotj]

/-- **One segment**: the call succeeds, its words are what no base prime strikes, and the
invariant moves on. -/
theorem emit_tracks (h : Tracks c segment s) (hnext : s.nextSegment = segment)
    (hsegment : segment < c.segments) :
    ∃ out s', emit s = .ok (out, s') ∧ out.index = segment ∧ out.oddLow = c.low segment
      ∧ BitWords.Packs WORD_BITS c.oddCount out.words (Survives c.primes (c.low segment))
      ∧ Tracks c (segment + 1) s' ∧ s'.nextSegment = segment + 1 := by
  obtain ⟨active, hactivate, hactive, hrest⟩ := activate_tracks h rfl
  have hwords := packs_segment hactive hsegment hrest
  have hodd : ∀ p ∈ (c.primes.take active.activationIndex).filter (· ≤ c.oddCount), p % 2 = 1 :=
    fun p hp => (c.base.odd p (List.mem_of_mem_take (List.mem_of_mem_filter hp))).2
  have hdense := (markAllDense_spec (c.low_odd segment) hodd
    (BitWords.packs_full (w := WORD_BITS) (by decide) c.oddCount)).2
  rw [← hactive.dense, ← c.low_succ] at hdense
  have hemptied : Configured c { active with
      dense := (markAllDense c.oddCount active.dense (initialWords c.oddCount)).2
      buckets := active.buckets.set (segment % c.ringSize) [] } :=
    { hactive.configured with
      buckets := by rw [List.length_set, hactive.configured.buckets] }
  have hvalid : ∀ e ∈ active.buckets.getD (segment % c.ringSize) [],
      c.oddCount < e.1 ∧ e.2 < c.oddCount ∧ e.1 / c.oddCount + 2 < c.ringSize := by
    intro e he
    obtain ⟨p, hp, hlong, hlt, rfl⟩ := (mem_events hactive hsegment e).mp he
    exact ⟨hlong, hlt, c.div_lt_ringSize (List.mem_of_mem_take hp)⟩
  obtain ⟨done, hrun, hdone, hindex, hstates, hevents⟩ := runEvents_spec hemptied hvalid
    (markAllDense c.oddCount active.dense (initialWords c.oddCount)).1
  have hemit : ∃ out, emit s = .ok (out, { done with nextSegment := segment + 1 })
      ∧ out.index = segment ∧ out.oddLow = c.low segment
      ∧ BitWords.Packs WORD_BITS c.oddCount out.words (Survives c.primes (c.low segment)) := by
    refine ⟨{
      index := segment
      oddLow := c.low segment
      words := _
      activeDensePrimes := done.dense.length
      sparseEvents := (active.buckets.getD (segment % c.ringSize) []).length
      newlyActivatedPrimes := done.activationIndex - s.activationIndex },
      ?_, rfl, rfl, packs_clear_one (c.low_odd segment) c.pos hwords⟩
    unfold emit
    rw [if_neg (by rw [hnext, h.configured.segments]; omega)]
    simp only [hnext, h.configured.firstLow, h.configured.oddCount, h.configured.primes,
      h.configured.ringSize, bind_ok]
    exact ⟨active, hactivate, _, hrun, rfl⟩
  obtain ⟨out, hout, hfields⟩ := hemit
  refine ⟨out, _, hout, hfields.1, hfields.2.1, hfields.2.2, ⟨{ hdone with }, fun p hp => ?_, ?_,
    fun j hj e => ?_⟩, rfl⟩
  · have hlt := hactive.begun p (hindex ▸ hp)
    rw [c.low_succ]
    omega
  · show done.dense = List.map _ (List.filter _ (c.primes.take done.activationIndex))
    rw [hstates, hindex]
    exact hdense
  · show e ∈ done.buckets.getD j [] ↔ ∃ p ∈ c.primes.take done.activationIndex, _
    rw [hevents, hindex]
    exact pending_iff hactive hsegment hj e

/-- Past the last segment a call refuses, and that is the only refusal. -/
theorem emit_exhausted (h : Tracks c segment s) (hnext : s.nextSegment = segment)
    (hsegment : c.segments ≤ segment) : emit s = .error .allEmitted := by
  rw [emit, if_pos (by rw [hnext, h.configured.segments]; exact hsegment)]

/-- **Any number of segments**, from a state that satisfies the invariant. -/
theorem emitMany_tracks (h : Tracks c segment s) (hnext : s.nextSegment = segment) {calls : Nat}
    (hcalls : segment + calls ≤ c.segments) :
    ∃ outs s', emitMany calls s = .ok (outs, s') ∧ Tracks c (segment + calls) s'
      ∧ s'.nextSegment = segment + calls
      ∧ ∀ k < calls, ∃ out, outs[k]? = some out ∧ out.oddLow = c.low (segment + k)
        ∧ BitWords.Packs WORD_BITS c.oddCount out.words
          (Survives c.primes (c.low (segment + k))) := by
  induction calls generalizing segment s with
  | zero => exact ⟨[], s, rfl, h, hnext, fun k hk => absurd hk (Nat.not_lt_zero k)⟩
  | succ calls ih =>
      obtain ⟨out, s₁, hemit, -, hlow, hwords, htracks, hnext₁⟩ := emit_tracks h hnext (by omega)
      obtain ⟨outs, s', hrest, htracks', hnext', hall⟩ := ih htracks hnext₁ (by omega)
      rw [show segment + 1 + calls = segment + (calls + 1) by omega] at htracks' hnext'
      refine ⟨out :: outs, s', ?_, htracks', hnext', fun k hk => ?_⟩
      · simp only [emitMany, bind_ok]
        exact ⟨_, hemit, _, hrest, rfl⟩
      · cases k with
        | zero => exact ⟨out, rfl, hlow, hwords⟩
        | succ k =>
            obtain ⟨next, hk', hnext⟩ := hall k (by omega)
            rw [show segment + 1 + k = segment + (k + 1) by omega] at hnext
            exact ⟨next, hk', hnext⟩

/-- Asking for one segment too many fails at the last call, and in no other way. -/
theorem emitMany_exhausted (h : Tracks c segment s) (hnext : s.nextSegment = segment) {calls : Nat}
    (hsegment : segment ≤ c.segments) (hcalls : c.segments < segment + calls) :
    emitMany calls s = .error .allEmitted := by
  induction calls generalizing segment s with
  | zero => omega
  | succ calls ih =>
      rw [emitMany]
      by_cases hlast : c.segments ≤ segment
      · rw [emit_exhausted h hnext hlast]
        rfl
      · obtain ⟨out, s₁, hemit, -, -, -, htracks, hnext₁⟩ := emit_tracks h hnext (by omega)
        rw [hemit]
        show (emitMany calls s₁ >>= _) = _
        rw [ih htracks hnext₁ (by omega) (by omega)]
        rfl

end

/-! ## The sieve from its constructor -/

theorem create_ok {oddLow oddCount segments : Nat} {oddPrimes : List Nat}
    {s : PersistentBucketOddSieve} (h : create oddLow oddCount segments oddPrimes = .ok s) :
    ∃ c : Schedule, c.firstLow = oddLow ∧ c.oddCount = oddCount ∧ c.segments = segments
      ∧ c.primes = oddPrimes ∧ validatePrimes oddPrimes = .ok () ∧ oddCount ≤ MAX_SEGMENT_ODDS
      ∧ Tracks c 0 s ∧ s.nextSegment = 0 := by
  simp only [create, bind_ok, refuseIf_ok, pure_ok, validateSegment_ok] at h
  obtain ⟨_, ⟨hlow, hpos, hbound⟩, _, -, _, hprimes, _, -, rfl⟩ := h
  refine ⟨⟨oddLow, oddCount, segments, oddPrimes, hlow, hpos, (validatePrimesFrom_ok hprimes).2⟩,
    rfl, rfl, rfl, rfl, hprimes, hbound, ?_, rfl⟩
  refine ⟨⟨rfl, rfl, rfl, rfl, rfl, List.length_replicate⟩, fun p hp => ?_, rfl, fun j hj e => ?_⟩
  · exact absurd hp List.not_mem_nil
  · have hempty : e ∉ (List.replicate (oddPrimes.getLast?.getD 1 / oddCount + 3)
        ([] : List (Nat × Nat))).getD j [] := by
      rw [List.getD_eq_getElem?_getD, List.getElem?_replicate]
      split <;> simp
    refine ⟨fun he => absurd he hempty, fun hmem => ?_⟩
    obtain ⟨p, hp, -⟩ := hmem
    exact absurd hp List.not_mem_nil

/-- **The persistent sieve emits what the stateless sieve computes**, segment by segment, and
the primes where its base list is complete. Its only failure is to be asked for more. -/
theorem persistent_eq_stateless (oddLow oddCount segments : Nat) (oddPrimes : List Nat)
    (s : PersistentBucketOddSieve) (h : create oddLow oddCount segments oddPrimes = .ok s)
    (k : Nat) :
    (k < segments → ∃ outs s' out words, emitMany (k + 1) s = .ok (outs, s') ∧ outs[k]? = some out
        ∧ out.words = words
        ∧ statelessOddPrimeWords (oddLow + 2 * oddCount * k) oddCount oddPrimes = .ok words
        ∧ ((∀ p, p.Prime → p % 2 = 1 → p * p < oddLow + 2 * oddCount * k + 2 * oddCount →
            p ∈ oddPrimes) →
          trialDivisionOddPrimeWords (oddLow + 2 * oddCount * k) oddCount = .ok words))
      ∧ (segments ≤ k → emitMany (k + 1) s = .error .allEmitted) := by
  obtain ⟨c, rfl, rfl, rfl, rfl, hprimes, hbound, htracks, hnext⟩ := create_ok h
  refine ⟨fun hk => ?_, fun hk => emitMany_exhausted htracks hnext (Nat.zero_le _) (by omega)⟩
  obtain ⟨outs, s', hrun, -, -, hall⟩ := 
    emitMany_tracks htracks hnext (show 0 + (k + 1) ≤ c.segments by omega)
  obtain ⟨out, hout, -, hwords⟩ := hall k (by omega)
  rw [Nat.zero_add] at hwords
  have hlow := c.low_odd k
  obtain ⟨⟨stateless, hstateless⟩, trial, htrial⟩ := sieves_total
    (validateSegment_ok.mpr ⟨hlow, c.pos, hbound⟩) hprimes
  have hsame : out.words = stateless :=
    hwords.eq_of_iff (by decide) (stateless_packs hstateless) fun _ _ => Iff.rfl
  refine ⟨outs, s', out, stateless, hrun, hout, hsame, hstateless, fun hcomplete => ?_⟩
  have htrialWords : trial = stateless :=
    (trialDivision_packs htrial).eq_of_iff (by decide) (stateless_packs hstateless) fun i hi =>
      (survives_iff_prime hlow c.base hi hcomplete).symm
  exact htrialWords ▸ htrial

/-- The third segment of odd numbers from one, with a list that holds a composite. -/
theorem persistent_eq_stateless_small :
    ∃ s, create 1 10 3 [3, 5, 7, 9] = .ok s ∧ ∃ outs s' out words,
      emitMany 3 s = .ok (outs, s') ∧ outs[2]? = some out ∧ out.words = words
        ∧ statelessOddPrimeWords 41 10 [3, 5, 7, 9] = .ok words
        ∧ trialDivisionOddPrimeWords 41 10 = .ok words := by
  refine ⟨_, rfl, ?_⟩
  obtain ⟨outs, s', out, words, hrun, hout, hwords, hstateless, htrial⟩ :=
    (persistent_eq_stateless 1 10 3 [3, 5, 7, 9] _ rfl 2).1 (by decide)
  refine ⟨outs, s', out, words, hrun, hout, hwords, hstateless, htrial fun p hprime hodd hsquare => ?_⟩
  have htwo := hprime.two_le
  have hlt : p < 8 := by
    by_contra hge
    have hle := Nat.mul_le_mul (not_lt.mp hge) (not_lt.mp hge)
    omega
  have hcases : p = 3 ∨ p = 5 ∨ p = 7 := by omega
  rcases hcases with rfl | rfl | rfl <;> decide

end AttestedCompute.Goldbach
