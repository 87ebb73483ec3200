import AttestedCompute.PrimeLadder.Replay

/-!
# What a replayed campaign covers

The ladder of a replay starts at an odd prime and climbs in steps that leave no odd target
out of reach: every odd number up to the coverage is a rung and an even number within the
gap bound. With the binary conjecture up to that bound, it is a sum of three primes.
-/

namespace AttestedCompute.PrimeLadder

open Fallible (bind_ok pure_ok)

/-- The parts outside the repository are right: the bounded primality test, and what the
external checker says. -/
structure Surroundings.Sound (s : Surroundings) : Prop where
  direct : ∀ n, s.isPrime n = true → ∃ q : Nat, n = q ∧ q.Prime
  external : ∀ checker ∈ s.external, ∀ n digest,
    runExternalPrimeChecker s.floats checker n digest = .ok () → ∃ q : Nat, n = q ∧ q.Prime

theorem Surroundings.Sound.bounded {s : Surroundings} (hs : s.Sound) :
    BoundedTestSound s.isPrime := by
  intro p _ hp
  obtain ⟨q, hq, hprime⟩ := hs.direct p hp
  rwa [Int.natCast_inj.mp hq]

theorem prime_of_checkProthRung {rung : Rung} {applies : Prop} [Decidable applies] {exponent : Int}
    {message : String} (h : checkProthRung rung applies exponent message = .ok ()) :
    ∃ q : Nat, rung.number = q ∧ q.Prime := by
  unfold checkProthRung at h
  split at h
  · split at h
    · obtain ⟨accepted, haccepted, h⟩ := bind_ok.mp h
      rw [raiseIf_ok, Bool.not_eq_false] at h
      exact checkProth_prime (h ▸ haccepted)
    · exact absurd h fail_ne_ok
  · exact absurd h fail_ne_ok

theorem prime_of_checkPocklingtonFile {s : Surroundings} (hs : s.Sound) {content : Bytes}
    {number : Int} (h : checkPocklingtonFile s content number = true) :
    ∃ q : Nat, number = q ∧ q.Prime := by
  unfold checkPocklingtonFile at h
  split at h
  · exact absurd h (by simp)
  · simp only [Bool.and_eq_true, decide_eq_true_eq] at h
    obtain ⟨⟨-, hnonneg⟩, hcheck⟩ := h
    obtain ⟨q, -, hprime, hexpected⟩ := checkAtDepth_sound hs.bounded hcheck
    exact ⟨q, by rw [← hexpected _ rfl, Int.toNat_of_nonneg hnonneg], hprime⟩

/-- **A checked rung is a prime.** -/
theorem prime_of_checkRung {s : Surroundings} (hs : s.Sound) {rung : Rung} {exponent : Int}
    (h : checkRung s rung exponent = .ok ()) : ∃ q : Nat, rung.number = q ∧ q.Prime := by
  unfold checkRung at h
  cases hkind : rung.certificateKind with
  | direct64 =>
      rw [hkind] at h
      exact hs.direct _ ((Bool.not_eq_false _).mp (raiseIf_ok.mp h))
  | proth52 =>
      rw [hkind] at h
      exact prime_of_checkProthRung h
  | proth =>
      rw [hkind] at h
      exact prime_of_checkProthRung h
  | pocklington =>
      rw [hkind] at h
      obtain ⟨digest, -, h⟩ := bind_ok.mp h
      cases hcontent : s.artifacts digest with
      | none =>
          rw [hcontent] at h
          exact absurd h fail_ne_ok
      | some content =>
          rw [hcontent] at h
          obtain ⟨_, -, h⟩ := bind_ok.mp h
          exact prime_of_checkPocklingtonFile hs ((Bool.not_eq_false _).mp (raiseIf_ok.mp h))
  | external =>
      rw [hkind] at h
      obtain ⟨digest, -, h⟩ := bind_ok.mp h
      cases hcontent : s.artifacts digest with
      | none =>
          rw [hcontent] at h
          exact absurd h fail_ne_ok
      | some content =>
          rw [hcontent] at h
          obtain ⟨_, -, h⟩ := bind_ok.mp h
          cases hexternal : s.external with
          | none =>
              rw [hexternal] at h
              exact absurd h fail_ne_ok
          | some checker =>
              rw [hexternal] at h
              exact hs.external checker hexternal _ _ h

/-- **A ladder of odd rungs reaches every odd target**, by induction on the rungs: if the next
rung is too high for the target, the target is in reach of this one. -/
theorem reaches_of_chain {p : CampaignParameters} {rungs : List Int} {bottom : Int} (target : Int)
    (hchain : (bottom :: rungs).IsChain (Spaced p)) (hodd : ∀ n ∈ bottom :: rungs, n % 2 = 1)
    (htarget : target % 2 = 1) (hlow : bottom + 4 ≤ target) :
    (∀ top ∈ (bottom :: rungs).getLast?, target ≤ top + p.maximumGap) →
      ∃ n ∈ bottom :: rungs, n + 4 ≤ target ∧ target ≤ n + p.maximumGap := by
  induction rungs generalizing bottom with
  | nil => exact fun htop => ⟨bottom, by simp, hlow, htop bottom rfl⟩
  | cons next rungs ih =>
      intro htop
      rw [List.getLast?_cons_cons] at htop
      rw [List.isChain_cons_cons] at hchain
      rcases lt_or_ge target (next + 4) with hhigh | hnext
      · have hbottom := hodd bottom (by simp)
        have hnextOdd := hodd next (by simp)
        have hreach := hchain.1.2
        exact ⟨bottom, by simp, hlow, by omega⟩
      · obtain ⟨n, hn, hreach⟩ := ih hchain.2
          (fun n hn => hodd n (List.mem_cons_of_mem _ hn)) hnext htop
        exact ⟨n, List.mem_cons_of_mem _ hn, hreach⟩

/-- The rungs of a ladder are odd, as they are primes from an odd one on. -/
theorem Climbs.odd {s : Surroundings} {p : CampaignParameters} (hs : s.Sound)
    (hp : p.Valid s.isPrime) {rungs : List Rung} {last : Rung} (h : Climbs s p rungs last) :
    ∀ n ∈ rungs.map Rung.number, n % 2 = 1 := by
  obtain ⟨seed, hseed, hprime⟩ := hs.direct _ hp.seed
  have hseedOdd := hp.seedOdd
  have hseedLarge : 3 ≤ p.seedPrime := by
    have := hprime.two_le
    omega
  intro n hn
  obtain ⟨rung, hrung, rfl⟩ := List.mem_map.mp hn
  obtain ⟨q, hq, hqPrime⟩ := prime_of_checkRung hs (h.checked rung hrung)
  have hlow : p.seedPrime ≤ rung.number := by
    have hfirst := h.seed
    cases rungs with
    | nil => exact absurd hrung (by simp)
    | cons first rungs =>
        have hfirst : first.number = p.seedPrime := Option.some.inj hfirst
        rcases List.mem_cons.mp hn with heq | hmem
        · exact (heq.trans hfirst).ge
        · exact (hfirst ▸ List.rel_of_pairwise_cons (chain_lt h.spaced) hmem).le
  rcases hqPrime.eq_two_or_odd with htwo | hqOdd
  · omega
  · omega

theorem small_sound : smallSurroundings.Sound where
  direct n h := by
    obtain ⟨hnonneg, hprime⟩ := of_decide_eq_true h
    exact ⟨n.toNat, (Int.toNat_of_nonneg hnonneg).symm, hprime⟩
  external checker h := absurd h (by simp [smallSurroundings])

end AttestedCompute.PrimeLadder
