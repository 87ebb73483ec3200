import AttestedCompute.PrimeLadder.RangeCanonical

/-!
# The summary of a range

The result of `verify_range_file` counts the rungs of each kind, keeps the widest step and
collects the digests of the certificates. For every accepted file the summary is exactly that
of the rungs in the file.
-/

namespace AttestedCompute.PrimeLadder

open Fallible (bind_ok pure_ok)

/-! ## What the summary says -/

def EvidenceCounts.of (counts : EvidenceCounts) : CertificateKind → Nat
  | .direct64 => counts.direct64
  | .external => counts.external
  | .pocklington => counts.pocklington
  | .proth => counts.proth
  | .proth52 => counts.proth52

/-- The steps between numbers, from one on. -/
def steps : Int → List Int → List Int
  | _, [] => []
  | lower, upper :: rest => (upper - lower) :: steps upper rest

/-- The digests of the certificates that rungs rest on. -/
def certificateDigests (rungs : List Rung) : List Text := rungs.filterMap Rung.certificateSha256

/-- The summary of a range is that of its rungs. -/
structure VerifiedRange.Summarizes (result : VerifiedRange) (first : Rung) (rest : List Rung) :
    Prop where
  counts : ∀ kind, result.evidenceCounts.of kind
    = ((first :: rest).map Rung.certificateKind).count kind
  gap : result.maximumObservedGap
    = (steps first.number (rest.map Rung.number)).foldl max 0
  certificates : ∀ digest, digest ∈ result.generalCertificateSha256s
    ↔ digest ∈ certificateDigests (first :: rest)
  sorted : result.generalCertificateSha256s.Pairwise (· < ·)

/-! ## The loop -/

theorem EvidenceCounts.of_add (counts : EvidenceCounts) (kind kind' : CertificateKind) :
    (counts.add kind).of kind' = counts.of kind' + if kind = kind' then 1 else 0 := by
  cases kind <;> cases kind' <;> rfl

theorem observeFrom_counts (p : CampaignParameters) (kind : CertificateKind) (rungs : List Rung)
    (ordinal : Nat) (scan : RangeScan) :
    (observeFrom p ordinal scan rungs).evidenceCounts.of kind
      = scan.evidenceCounts.of kind + (rungs.map Rung.certificateKind).count kind := by
  induction rungs generalizing ordinal scan with
  | nil => rfl
  | cons rung rungs ih =>
      have hstep : (scan.observe p ordinal rung).evidenceCounts
          = scan.evidenceCounts.add rung.certificateKind := rfl
      rw [observeFrom, ih, hstep, EvidenceCounts.of_add, List.map_cons, List.count_cons, beq_eq_decide]
      simp only [decide_eq_true_eq]
      omega

/-- From the second round on, every step counts. -/
theorem observeFrom_gap (p : CampaignParameters) (rungs : List Rung) (ordinal : Nat)
    (scan : RangeScan) :
    (observeFrom p (ordinal + 1) scan rungs).maximumObservedGap
      = (steps scan.previous (rungs.map Rung.number)).foldl max scan.maximumObservedGap := by
  induction rungs generalizing ordinal scan with
  | nil => rfl
  | cons rung rungs ih =>
      have hstep : (scan.observe p (ordinal + 1) rung).maximumObservedGap
          = max scan.maximumObservedGap (rung.number - scan.previous) := by
        rw [RangeScan.observe, if_neg (Nat.succ_ne_zero ordinal)]
      have hprevious : (scan.observe p (ordinal + 1) rung).previous = rung.number := rfl
      rw [observeFrom, ih, hstep, hprevious, List.map_cons, steps, List.foldl_cons]

theorem mem_certificatesWith {scan : RangeScan} {rung : Rung} {digest : Text} :
    digest ∈ scan.certificatesWith rung ↔
      rung.certificateSha256 = some digest ∨ digest ∈ scan.generalCertificates := by
  unfold RangeScan.certificatesWith
  cases rung.certificateSha256 with
  | none => simp
  | some kept => simp [List.mem_insert_iff, eq_comm]

theorem observeFrom_certificates (p : CampaignParameters) (digest : Text) (rungs : List Rung)
    (ordinal : Nat) (scan : RangeScan) :
    digest ∈ (observeFrom p ordinal scan rungs).generalCertificates ↔
      digest ∈ scan.generalCertificates ∨ digest ∈ certificateDigests rungs := by
  induction rungs generalizing ordinal scan with
  | nil => simp [observeFrom, certificateDigests]
  | cons rung rungs ih =>
      have hstep : (scan.observe p ordinal rung).generalCertificates = scan.certificatesWith rung := rfl
      rw [observeFrom, ih, hstep, mem_certificatesWith]
      simp only [certificateDigests, List.mem_filterMap, List.exists_mem_cons_iff]
      tauto

/-- The digests are kept without repetition. -/
theorem nodup_observeFrom (p : CampaignParameters) (rungs : List Rung) (ordinal : Nat)
    (scan : RangeScan) (h : scan.generalCertificates.Nodup) :
    (observeFrom p ordinal scan rungs).generalCertificates.Nodup := by
  induction rungs generalizing ordinal scan with
  | nil => exact h
  | cons rung rungs ih =>
      refine ih (ordinal + 1) (scan.observe p ordinal rung) ?_
      show (scan.certificatesWith rung).Nodup
      unfold RangeScan.certificatesWith
      cases rung.certificateSha256 with
      | none => exact h
      | some kept => exact h.insert

/-- A sorted list without repetition is strictly sorted. -/
theorem pairwise_sorted {digests : List Text} (h : digests.Nodup) :
    (digests.insertionSort (· ≤ ·)).Pairwise (· < ·) := by
  have hnodup := (List.perm_insertionSort (· ≤ ·) digests).nodup_iff.mpr h
  exact ((List.pairwise_insertionSort (· ≤ ·) digests).and hnodup).imp
    fun hboth => lt_of_le_of_ne hboth.1 hboth.2

/-- What the end of the verifier makes of the loop over a range. -/
theorem summarizes_of_finishRange {p : CampaignParameters} {index count : Nat} {file : Bytes}
    {base : Int} {first : Rung} {rest : List Rung} {result : VerifiedRange}
    (h : finishRange p index count file (observeFrom p 0 { previous := base } (first :: rest))
      = .ok result) : result.Summarizes first rest := by
  obtain ⟨-, -, -, -, -, -, -, -, hgap, hcounts, hcertificates⟩ := finishRange_ok.mp h
  refine ⟨fun kind => ?_, ?_, fun digest => ?_, ?_⟩
  · rw [hcounts, observeFrom_counts]
    have hnone : (EvidenceCounts.of {} kind) = 0 := by cases kind <;> rfl
    rw [hnone, zero_add]
  · rw [hgap]
    exact observeFrom_gap p rest 0 (RangeScan.observe p 0 { previous := base } first)
  · rw [hcertificates, List.mem_insertionSort, observeFrom_certificates]
    simp
  · rw [hcertificates]
    exact pairwise_sorted (nodup_observeFrom p (first :: rest) 0 { previous := base } List.nodup_nil)

/--
**The summary of an accepted file is exact.** The file holds a ladder, and the result has its
first and last rung, its length, the number of rungs of each kind, the widest of its steps, and
every digest its rungs rest on, sorted and once.
-/
theorem verifyRangeFile_summarizes {s : Surroundings} {p : CampaignParameters} {index : Nat}
    {previous : Text} {file : Bytes} {result : VerifiedRange}
    (h : verifyRangeFile s p index previous file = .ok result) :
    ∃ first rest, result.Describes index file (first :: rest) ∧ result.Summarizes first rest
      ∧ IsLadder s p index (first :: rest)
      ∧ ∃ spelled, HoldsRange s p index previous file first.number (first :: rest) spelled := by
  obtain ⟨rungs, spelled, hdescribes, hladder, hholds, hfinish⟩ := verifyRangeFile_scanned h
  cases rungs with
  | nil => exact absurd hdescribes.first_eq (by simp)
  | cons first rest =>
      obtain rfl : first = result.first := Option.some.inj hdescribes.first_eq
      exact ⟨result.first, rest, hdescribes, summarizes_of_finishRange hfinish, hladder, spelled, hholds⟩

theorem verifyRangeFile_summarizes_small : ∃ file result first rest,
    verifyRangeFile smallSurroundings smallParameters 0 ZERO_HASH file = .ok result
      ∧ result.Describes 0 file (first :: rest) ∧ result.Summarizes first rest := by
  obtain ⟨file, hfile⟩ := small_writes
  obtain ⟨result, hresult, -⟩ := verifyRangeFile_written hfile small_isLadder
    (fun rung hrung => by
      obtain rfl := Option.some.inj hrung
      decide) (by decide +kernel)
  obtain ⟨first, rest, hdescribes, hsummary, -⟩ := verifyRangeFile_summarizes hresult
  exact ⟨file, result, first, rest, hresult, hdescribes, hsummary⟩

end AttestedCompute.PrimeLadder
