import AttestedCompute.Arithmetic.MobiusLinear
import AttestedCompute.Finite.Certificate
import AttestedCompute.Finite.Totients

/-!
# The finite sums `G_q(k)`

`ramare_g_prefixes` adds the terms of `G_q` in order, with the values of two sieves, and keeps the
running sum at every `k` that was asked for.
-/

namespace AttestedCompute.Finite

open Fallible

def MAX_HASHED_ROWS : Nat := 25000000

/-- The running sum and the dictionary of the sums that were asked for. -/
structure PrefixSums where
  total : ℚ
  result : List (Int × ℚ)

/-- One turn of the loop over `r`. -/
def addTerm (q : Int) (mu : Nat → Int) (phi : Nat → Nat) (wanted : List Int) (s : PrefixSums)
    (r : Nat) : PrefixSums :=
  let total := if mu r ≠ 0 ∧ Int.gcd r q = 1 then s.total + 1 / (phi r : ℚ) else s.total
  { total := total
    result := if (r : Int) ∈ wanted then s.result ++ [((r : Int), total)] else s.result }

/-- The checks on the sequence of `k`, item by item. -/
def checkRequested : Nat → List Int → Checked Unit
  | _, [] => .ok ()
  | index, k :: ks => do
      failIf (MAX_HASHED_ROWS ≤ index) "requested k sequence exceeds the local row safety limit"
      checkInt "k" k 1
      checkRequested (index + 1) ks

/-- `ramare_g_prefixes` -/
def ramareGPrefixes (q : Int) (ks : List Int) : Checked (List (Int × ℚ)) := do
  checkInt "q" q 1
  checkRequested 0 ks
  match ks.getLast? with
  | none => pure []
  | some limit => do
      failIf (¬ ks.Pairwise (· < ·)) "requested k values must be strictly increasing"
      failIf (MAX_HASHED_ROWS < limit)
        "largest requested k exceeds the local arithmetic safety limit"
      let mu := Arithmetic.mobiusLinear limit.toNat
      let phi := totientsThrough limit.toNat
      pure ((List.range' 1 limit.toNat).foldl (addTerm q mu phi ks) ⟨0, []⟩).result

/-! ## What the dictionary holds -/

/-- The sum over `r ≤ k` with `gcd(r, q) = 1` of `μ(r)² / φ(r)`. -/
def ramareG (q : Int) (k : Nat) : ℚ :=
  ∑ r ∈ (Finset.Icc 1 k).filter (fun r : Nat => Int.gcd r q = 1),
    (ArithmeticFunction.moebius r : ℚ) ^ 2 / (r.totient : ℚ)

theorem ramareG_succ (q : Int) (k : Nat) :
    ramareG q (k + 1) = ramareG q k +
      if Int.gcd (k + 1 : Nat) q = 1 then
        (ArithmeticFunction.moebius (k + 1) : ℚ) ^ 2 / ((k + 1).totient : ℚ) else 0 := by
  unfold ramareG
  rw [← Finset.insert_Icc_right_eq_Icc_add_one (show 1 ≤ k + 1 by omega), Finset.filter_insert]
  split
  · rw [Finset.sum_insert (by simp), add_comm]
  · rw [add_zero]

/-- Adding one over the totient where the Möbius value is not 0 adds the term of the sum. -/
theorem ramareG_term (q : Int) {k limit : Nat} (hk : k + 1 ≤ limit) (total : ℚ) :
    (if Arithmetic.mobiusLinear limit (k + 1) ≠ 0 ∧ Int.gcd (k + 1 : Nat) q = 1 then
        total + 1 / (totientsThrough limit (k + 1) : ℚ) else total) =
      total + if Int.gcd (k + 1 : Nat) q = 1 then
        (ArithmeticFunction.moebius (k + 1) : ℚ) ^ 2 / ((k + 1).totient : ℚ) else 0 := by
  rw [Arithmetic.mobiusLinear_eq (by omega) hk, totientsThrough_eq (by omega) hk]
  by_cases hgcd : Int.gcd (k + 1 : Nat) q = 1
  · rw [if_pos hgcd]
    by_cases hsquarefree : Squarefree (k + 1)
    · have hone : (ArithmeticFunction.moebius (k + 1) : ℚ) ^ 2 = 1 := by
        exact_mod_cast ArithmeticFunction.moebius_sq_eq_one_of_squarefree hsquarefree
      rw [if_pos ⟨ArithmeticFunction.moebius_ne_zero_iff_squarefree.mpr hsquarefree, hgcd⟩, hone]
    · have hzero := ArithmeticFunction.moebius_eq_zero_of_not_squarefree hsquarefree
      rw [if_neg fun h => h.1 hzero, hzero]
      simp
  · rw [if_neg fun h => hgcd h.2, if_neg hgcd, add_zero]

/-- What the loop has after `r = 1, …, k`. -/
structure SummedThrough (q : Int) (wanted : List Int) (k : Nat) (s : PrefixSums) : Prop where
  total : s.total = ramareG q k
  result : ∀ r : Nat, s.result.lookup (r : Int) =
    if (r : Int) ∈ wanted ∧ 1 ≤ r ∧ r ≤ k then some (ramareG q r) else none

theorem addTerm_spec {q : Int} {wanted : List Int} {k limit : Nat} (hk : k + 1 ≤ limit)
    {s : PrefixSums} (h : SummedThrough q wanted k s) :
    SummedThrough q wanted (k + 1)
      (addTerm q (Arithmetic.mobiusLinear limit) (totientsThrough limit) wanted s (k + 1)) := by
  have htotal : (addTerm q (Arithmetic.mobiusLinear limit) (totientsThrough limit) wanted s
      (k + 1)).total = ramareG q (k + 1) := by
    rw [ramareG_succ, ← h.total]
    exact ramareG_term q hk s.total
  refine ⟨htotal, fun r => ?_⟩
  have hresult : (addTerm q (Arithmetic.mobiusLinear limit) (totientsThrough limit) wanted s
      (k + 1)).result = if ((k + 1 : Nat) : Int) ∈ wanted then
        s.result ++ [(((k + 1 : Nat) : Int), ramareG q (k + 1))] else s.result := by
    rw [← htotal]
    rfl
  rw [hresult]
  by_cases hr : r = k + 1
  · -- the key of this turn: it was not there before
    subst hr
    have hnone : s.result.lookup ((k + 1 : Nat) : Int) = none := by
      rw [h.result, if_neg fun hle => by omega]
    split
    · rename_i hwanted
      rw [List.lookup_append, hnone, if_pos ⟨hwanted, by omega, le_rfl⟩]
      simp
    · rename_i hwanted
      rw [hnone, if_neg fun hall => hwanted hall.1]
  · have hother : ((r : Int) == ((k + 1 : Nat) : Int)) = false := by
      rw [beq_eq_false_iff_ne]
      omega
    have hsame : (if ((k + 1 : Nat) : Int) ∈ wanted then
        s.result ++ [(((k + 1 : Nat) : Int), ramareG q (k + 1))] else s.result).lookup (r : Int) =
          s.result.lookup (r : Int) := by
      split
      · rw [List.lookup_append, List.lookup_cons, hother]
        simp
      · rfl
    rw [hsame, h.result]
    refine if_congr (and_congr_right fun _ => and_congr_right fun _ => ?_) rfl rfl
    omega

theorem summedThrough_foldl {q : Int} {wanted : List Int} {count k limit : Nat}
    (hcount : k + count ≤ limit) {s : PrefixSums} (h : SummedThrough q wanted k s) :
    SummedThrough q wanted (k + count) ((List.range' (k + 1) count).foldl
      (addTerm q (Arithmetic.mobiusLinear limit) (totientsThrough limit) wanted) s) := by
  induction count generalizing k s with
  | zero => exact h
  | succ count ih =>
      rw [List.range'_succ, List.foldl_cons]
      have hnext := @addTerm_spec q wanted k limit (by omega) s h
      have := ih (by omega) hnext
      rwa [show k + (count + 1) = k + 1 + count by omega]

theorem checkRequested_ok {index : Nat} {ks : List Int} (h : checkRequested index ks = .ok ()) :
    ∀ k ∈ ks, 1 ≤ k := by
  induction ks generalizing index with
  | nil =>
      intro k hk
      cases hk
  | cons a ks ih =>
      simp only [checkRequested, bind_ok, failIf_ok, checkInt] at h
      obtain ⟨_, _, _, ha, hrest⟩ := h
      intro k hk
      rcases List.mem_cons.mp hk with rfl | hk
      · omega
      · exact ih hrest k hk

/-- **Every sum that was asked for is there and exact.** -/
theorem ramareGPrefixes_lookup {q : Int} {ks : List Int} {values : List (Int × ℚ)}
    (h : ramareGPrefixes q ks = .ok values) {k : Nat} (hk : (k : Int) ∈ ks) :
    values.lookup (k : Int) = some (ramareG q k) := by
  simp only [ramareGPrefixes, bind_ok] at h
  obtain ⟨_, _, _, hrequested, h⟩ := h
  have hpos := checkRequested_ok hrequested k hk
  cases hlast : ks.getLast? with
  | none =>
      rw [List.getLast?_eq_none_iff.mp hlast] at hk
      cases hk
  | some limit =>
      simp only [hlast, bind_ok, failIf_ok, pure_ok, not_not] at h
      obtain ⟨_, hsorted, _, _, rfl⟩ := h
      -- the last item is the largest
      have hle : (k : Int) ≤ limit := by
        obtain ⟨front, rfl⟩ := List.getLast?_eq_some_iff.mp hlast
        rcases List.mem_append.mp hk with hfront | hself
        · exact ((List.pairwise_append.mp hsorted).2.2 _ hfront _ (List.mem_singleton_self _)).le
        · exact (List.mem_singleton.mp hself).le
      have hstart : SummedThrough q ks 0 ⟨0, []⟩ := by
        refine ⟨?_, fun r => ?_⟩
        · simp [ramareG]
        · rw [if_neg fun hr => by omega]
          rfl
      have hsummed := summedThrough_foldl (show 0 + limit.toNat ≤ limit.toNat by omega) hstart
      rw [Nat.zero_add] at hsummed
      rw [hsummed.result, if_pos ⟨hk, by omega, by omega⟩]

end AttestedCompute.Finite
