import AttestedCompute.Lib.ByteString

/-!
# Iterated hashing, streamed and in one shot

A Merkle–Damgård hash pads the message to whole blocks and folds a compression
function over them. A streaming implementation keeps only the chaining value and
feeds it blocks as they arrive, padding the unfinished tail at the end. The two
agree as soon as every streamed piece but the last is a whole number of blocks,
which is all `absorb_append` says.
-/

namespace IteratedHash

variable {σ : Type*}

/-- Fold the compression function over `n` consecutive blocks of `r` bytes. -/
def absorb (compress : σ → Bytes → σ) (r : Nat) : Nat → σ → Bytes → σ
  | 0, s, _ => s
  | n + 1, s, bs => absorb compress r n (compress s (bs.take r)) (bs.drop r)

/-- The one-shot hash: pad, then absorb every block. -/
def oneShot (compress : σ → Bytes → σ) (r : Nat) (pad : Nat → Bytes) (init : σ) (msg : Bytes) : σ :=
  absorb compress r ((msg.length + (pad msg.length).length) / r) init (msg ++ pad msg.length)

variable {compress : σ → Bytes → σ} {r : Nat}

/-- Absorbing a whole number of blocks and then the rest is absorbing everything. -/
theorem absorb_append {n : Nat} {xs : Bytes} (hlen : xs.length = n * r) (m : Nat) (s : σ)
    (ys : Bytes) :
    absorb compress r (n + m) s (xs ++ ys) = absorb compress r m (absorb compress r n s xs) ys := by
  induction n generalizing s xs with
  | zero =>
      have hnil : xs = [] := List.length_eq_zero_iff.mp (by simpa using hlen)
      rw [hnil, Nat.zero_add]
      rfl
  | succ n ih =>
      have hr : r ≤ xs.length := by rw [hlen, Nat.succ_mul]; omega
      have hrest : (xs.drop r).length = n * r := by
        rw [List.length_drop, hlen, Nat.succ_mul]; omega
      rw [Nat.add_right_comm, absorb, absorb, List.take_append_of_le_length hr,
        List.drop_append_of_le_length hr]
      exact ih hrest _

/-- Absorbing reads nothing past the last whole block. -/
theorem absorb_append_left {n : Nat} {xs : Bytes} (hlen : xs.length = n * r) (s : σ) (ys : Bytes) :
    absorb compress r n s (xs ++ ys) = absorb compress r n s xs := by
  have h : absorb compress r (n + 0) s (xs ++ ys) = _ := absorb_append hlen 0 s ys
  simpa [absorb] using h

/-- **Streaming is hashing.** If the streamed prefix is a whole number of blocks,
finishing from its chaining value with the padded tail gives the one-shot hash of
prefix and tail together. -/
theorem oneShot_append {pad : Nat → Bytes} {init : σ} {n : Nat} {xs tail : Bytes} (hr : 0 < r)
    (hlen : xs.length = n * r) :
    oneShot compress r pad init (xs ++ tail)
      = absorb compress r ((tail.length + (pad (xs.length + tail.length)).length) / r)
          (absorb compress r n init xs) (tail ++ pad (xs.length + tail.length)) := by
  have hcount : ((xs ++ tail).length + (pad (xs ++ tail).length).length) / r
      = n + (tail.length + (pad (xs.length + tail.length)).length) / r := by
    rw [List.length_append, hlen, Nat.add_assoc, Nat.add_comm (n * r),
      Nat.add_mul_div_right _ _ hr, Nat.add_comm]
  rw [oneShot, hcount, List.append_assoc, absorb_append hlen, List.length_append]

end IteratedHash
