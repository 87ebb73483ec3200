import AttestedCompute.Lib.BitWords
import AttestedCompute.Lib.Fallible

/-!
# The persistent bucket sieve

The three sieves of `tg_verifier/goldbach_bucket_sieve.py`: the stateless replay, the
trial division and the persistent sieve with its dense offsets and circular buckets. All
three return the odd numbers of one segment as 64-bit words, a bit for each odd number.

The integers that a sieve accepts are positive, so all of them are natural numbers here.
-/

namespace AttestedCompute.Goldbach

open Fallible

def WORD_BITS : Nat := 64

def MAX_SEGMENT_ODDS : Nat := 2 ^ 31

/-- A range, base-prime table, or persistent-state invariant failed. -/
inductive GoldbachBucketSieveError where
  | oddLow
  | oddCount
  | basePrime (index : Nat)
  | segments
  | ringSize
  | allEmitted
  | missedActivation
  | newEventEscaped
  | malformedEvent
  | rescheduledEscaped
  deriving DecidableEq, Repr

/-- The text of each failure. -/
def GoldbachBucketSieveError.message : GoldbachBucketSieveError → String
  | oddLow => "odd_low must be a positive odd integer"
  | oddCount => "odd_count is outside the reviewed bound"
  | basePrime index =>
      "base prime " ++ toString index ++ " is not a strictly increasing odd integer"
  | segments => "segments must be a positive integer"
  | ringSize => "bucket ring exceeds review bound; use a larger segment"
  | allEmitted => "all configured segments were emitted"
  | missedActivation => "new dense prime missed its activation segment"
  | newEventEscaped => "new sparse event escaped the bucket horizon"
  | malformedEvent => "malformed sparse bucket event"
  | rescheduledEscaped => "rescheduled sparse event escaped the bucket horizon"

abbrev Checked := Except GoldbachBucketSieveError

def validateSegment (oddLow oddCount : Nat) : Checked Unit := do
  refuseIf (oddLow < 1 ∨ oddLow % 2 = 0) .oddLow
  refuseIf (¬ (1 ≤ oddCount ∧ oddCount ≤ MAX_SEGMENT_ODDS)) .oddCount

/-- The loop of `_validate_primes` from an index and the prime before it. -/
def validatePrimesFrom : Nat → Nat → List Nat → Checked Unit
  | _, _, [] => .ok ()
  | index, previous, prime :: rest => do
      refuseIf (prime < 3 ∨ prime % 2 = 0 ∨ prime ≤ previous) (.basePrime index)
      validatePrimesFrom (index + 1) prime rest

def validatePrimes (primes : List Nat) : Checked Unit := validatePrimesFrom 0 1 primes

/-- First odd multiple of `prime` at least `max(odd_low, prime**2)`. -/
def firstOddComposite (oddLow prime : Nat) : Nat :=
  let quotient := (oddLow + prime - 1) / prime
  let multiple := quotient * prime
  max (if multiple % 2 = 0 then multiple + prime else multiple) (prime * prime)

def initialWords (oddCount : Nat) : List Nat := BitWords.full WORD_BITS oddCount

/-- `_clear` -/
def clearBit (words : List Nat) (offset : Nat) : List Nat := BitWords.clear WORD_BITS words offset

/-- `range(start, stop, step)` -/
def pyRange (start stop step : Nat) : List Nat :=
  List.range' start ((stop - start + step - 1) / step) step

/-- The outer loop of the stateless sieve. -/
def strikeOut (oddLow high : Nat) : List Nat → List Nat → List Nat
  | [], words => words
  | prime :: rest, words =>
      if prime * prime ≥ high then words
      else strikeOut oddLow high rest
        ((pyRange (firstOddComposite oddLow prime) high (2 * prime)).foldl
          (fun words composite => clearBit words ((composite - oddLow) / 2)) words)

/-- Exact independent replay that recomputes every first multiple. -/
def statelessOddPrimeWords (oddLow oddCount : Nat) (oddPrimes : List Nat) : Checked (List Nat) := do
  validateSegment oddLow oddCount
  validatePrimes oddPrimes
  let words := strikeOut oddLow (oddLow + 2 * oddCount) oddPrimes (initialWords oddCount)
  pure (if oddLow = 1 then clearBit words 0 else words)

/-- The inner loop of the trial division. -/
def trialLoop (value divisor : Nat) (isPrime : Bool) : Bool :=
  if h : isPrime = true ∧ divisor * divisor ≤ value then
    trialLoop value (divisor + 2) (decide (value % divisor ≠ 0))
  else isPrime
termination_by value + 2 - divisor
decreasing_by
  have hle : divisor ≤ value := by
    rcases Nat.eq_zero_or_pos divisor with hzero | hpos
    · omega
    · exact (Nat.le_mul_of_pos_left divisor hpos).trans h.2
  omega

/-- Slow KAT oracle with no segmented-sieve or bucket state. -/
def trialDivisionOddPrimeWords (oddLow oddCount : Nat) : Checked (List Nat) := do
  validateSegment oddLow oddCount
  pure ((List.range oddCount).foldl
    (fun words offset =>
      let value := oddLow + 2 * offset
      if trialLoop value 3 (decide (2 ≤ value)) then BitWords.set WORD_BITS words offset else words)
    (BitWords.empty WORD_BITS oddCount))

structure PersistentSegment where
  index : Nat
  oddLow : Nat
  words : List Nat
  activeDensePrimes : Nat
  sparseEvents : Nat
  newlyActivatedPrimes : Nat
  deriving DecidableEq, Repr

/-- Exact Python replay of the hybrid dense/circular-bucket schedule. -/
structure PersistentBucketOddSieve where
  firstLow : Nat
  oddCount : Nat
  segments : Nat
  primes : List Nat
  ringSize : Nat
  /-- A prime above the segment length and the offset of its next odd multiple. -/
  buckets : List (List (Nat × Nat))
  /-- A prime up to the segment length and the offset of its next odd multiple. -/
  dense : List (Nat × Nat)
  activationIndex : Nat
  nextSegment : Nat
  sparseEvents : Nat
  deriving DecidableEq, Repr

namespace PersistentBucketOddSieve

/-- `__init__` -/
def create (oddLow oddCount segments : Nat) (oddPrimes : List Nat) :
    Checked PersistentBucketOddSieve := do
  validateSegment oddLow oddCount
  refuseIf (segments < 1) .segments
  validatePrimes oddPrimes
  let baseLimit := oddPrimes.getLast?.getD 1
  let ringSize := baseLimit / oddCount + 3
  refuseIf (2 ^ 24 < ringSize) .ringSize
  pure {
    firstLow := oddLow
    oddCount := oddCount
    segments := segments
    primes := oddPrimes
    ringSize := ringSize
    buckets := List.replicate ringSize []
    dense := []
    activationIndex := 0
    nextSegment := 0
    sparseEvents := 0 }

/-- `self._buckets[target % self._ring_size].append(event)`, for a target still to come. -/
def schedule (s : PersistentBucketOddSieve) (target : Nat) (event : Nat × Nat) :
    PersistentBucketOddSieve :=
  if target < s.segments then
    { s with buckets := s.buckets.modify (target % s.ringSize) fun bucket => bucket ++ [event] }
  else s

/-- Activate one prime at the offset of its first odd composite. -/
def admitPrime (s : PersistentBucketOddSieve) (segment prime offset : Nat) :
    Checked PersistentBucketOddSieve :=
  if prime ≤ s.oddCount then
    if offset ≥ s.oddCount then .error .missedActivation
    else .ok { s with dense := s.dense ++ [(prime, offset)] }
  else
    if offset / s.oddCount ≥ s.ringSize then .error .newEventEscaped
    else .ok (s.schedule (segment + offset / s.oddCount) (prime, offset % s.oddCount))

/-- The activation loop over the primes not yet active. -/
def activate (segment low high : Nat) : List Nat → PersistentBucketOddSieve →
    Checked PersistentBucketOddSieve
  | [], s => .ok s
  | prime :: rest, s =>
      if prime * prime ≥ high then .ok s
      else do
        let s' ← admitPrime { s with activationIndex := s.activationIndex + 1 } segment prime
          ((firstOddComposite low prime - low) / 2)
        activate segment low high rest s'

/-- `while offset < odd_count: clear; offset += prime`. Each turn adds at least one, so as many
turns as there are offsets are enough. -/
def markDense (oddCount prime : Nat) : Nat → List Nat → Nat → List Nat × Nat
  | 0, words, offset => (words, offset)
  | turns + 1, words, offset =>
      if offset < oddCount then markDense oddCount prime turns (clearBit words offset) (offset + prime)
      else (words, offset)

/-- The loop over the dense primes: the words and the new dense states. -/
def markAllDense (oddCount : Nat) : List (Nat × Nat) → List Nat → List Nat × List (Nat × Nat)
  | [], words => (words, [])
  | (prime, offset) :: rest, words =>
      let marked := markDense oddCount prime oddCount words offset
      let others := markAllDense oddCount rest marked.1
      (others.1, (prime, marked.2 - oddCount) :: others.2)

/-- The loop over the events of a segment. -/
def runEvents (segment : Nat) : List (Nat × Nat) → PersistentBucketOddSieve → List Nat →
    Checked (PersistentBucketOddSieve × List Nat)
  | [], s, words => .ok (s, words)
  | (prime, offset) :: rest, s, words =>
      if ¬ (s.oddCount < prime ∧ offset < s.oddCount) then .error .malformedEvent
      else
        let delta := (offset + prime) / s.oddCount
        let nextOffset := (offset + prime) % s.oddCount
        if ¬ (0 < delta ∧ delta < s.ringSize) then .error .rescheduledEscaped
        else
          runEvents segment rest
            (schedule { s with sparseEvents := s.sparseEvents + 1 } (segment + delta)
              (prime, nextOffset))
            (clearBit words offset)

/-- Emit the next segment. -/
def emit (s : PersistentBucketOddSieve) : Checked (PersistentSegment × PersistentBucketOddSieve) :=
  if s.nextSegment ≥ s.segments then .error .allEmitted
  else do
    let segment := s.nextSegment
    let low := s.firstLow + 2 * s.oddCount * segment
    let active ← activate segment low (low + 2 * s.oddCount) (s.primes.drop s.activationIndex) s
    let marked := markAllDense s.oddCount active.dense (initialWords s.oddCount)
    let slot := segment % s.ringSize
    let events := active.buckets.getD slot []
    let emptied := { active with dense := marked.2, buckets := active.buckets.set slot [] }
    let (done, words) ← runEvents segment events emptied marked.1
    pure ({
      index := segment
      oddLow := low
      words := if low = 1 then clearBit words 0 else words
      activeDensePrimes := done.dense.length
      sparseEvents := events.length
      newlyActivatedPrimes := done.activationIndex - s.activationIndex },
      { done with nextSegment := segment + 1 })

/-- Call `next_segment` a number of times. -/
def emitMany : Nat → PersistentBucketOddSieve →
    Checked (List PersistentSegment × PersistentBucketOddSieve)
  | 0, s => .ok ([], s)
  | calls + 1, s => do
      let (segment, s') ← emit s
      let (segments, last) ← emitMany calls s'
      pure (segment :: segments, last)

end PersistentBucketOddSieve

end AttestedCompute.Goldbach
