import Mathlib

/-!
# Threaded lists

A list whose items each take a value in and give a value out, every item taking what the
one before it gave. One item can thread several values at once: a range end, a running
state, the hash of what came before.

Two threads that give the same last value run together backwards as long as an item is
determined by what it gives (`Threaded.suffix_or_suffix`). A thread through an order that
only goes up is a partition into half-open intervals (`Threaded.exists_mem_iff`), and
leaves no room in front of itself (`Threaded.eq_of_suffix`).
-/

variable {α δ : Type*} (inn out : α → δ)

/-- Each item takes what the one before gave, from `start` on to `stop`. -/
def Threaded : δ → List α → δ → Prop
  | start, [], stop => start = stop
  | start, x :: xs, stop => inn x = start ∧ Threaded (out x) xs stop

namespace Threaded

variable {inn out} {start stop : δ} {xs ys : List α}

theorem append_iff :
    Threaded inn out start (xs ++ ys) stop
      ↔ ∃ middle, Threaded inn out start xs middle ∧ Threaded inn out middle ys stop := by
  induction xs generalizing start with
  | nil =>
      constructor
      · intro h
        exact ⟨start, rfl, h⟩
      · rintro ⟨middle, rfl, h⟩
        exact h
  | cons x xs ih =>
      rw [List.cons_append, Threaded, ih]
      constructor
      · rintro ⟨hx, middle, hxs, hys⟩
        exact ⟨middle, ⟨hx, hxs⟩, hys⟩
      · rintro ⟨middle, ⟨hx, hxs⟩, hys⟩
        exact ⟨hx, middle, hxs, hys⟩

/-- The last item gives the last value. -/
theorem append_singleton_iff {x : α} :
    Threaded inn out start (xs ++ [x]) stop
      ↔ Threaded inn out start xs (inn x) ∧ out x = stop := by
  rw [append_iff]
  constructor
  · rintro ⟨middle, hxs, rfl, hstop⟩
    exact ⟨hxs, hstop⟩
  · rintro ⟨hxs, hstop⟩
    exact ⟨inn x, hxs, rfl, hstop⟩

/-- Items that hand over pairwise are threaded. -/
theorem of_isChain {x last : α} (h : List.IsChain (fun a b => inn b = out a) (x :: xs))
    (hlast : (x :: xs).getLast? = some last) :
    Threaded inn out (inn x) (x :: xs) (out last) := by
  induction xs generalizing x with
  | nil =>
      injection hlast with hlast
      rw [← hlast]
      exact ⟨rfl, rfl⟩
  | cons y ys ih =>
      obtain ⟨hxy, hys⟩ := List.isChain_cons_cons.mp h
      rw [List.getLast?_cons_cons] at hlast
      have htail := ih hys hlast
      rw [hxy] at htail
      exact ⟨rfl, htail⟩

/-- **Threads that end alike run together backwards**, as long as an item is determined by
what it gives. -/
theorem suffix_or_suffix {start' : δ} (hx : Threaded inn out start xs stop)
    (hy : Threaded inn out start' ys stop)
    (hinj : ∀ x ∈ xs, ∀ y ∈ ys, out x = out y → x = y) : xs <:+ ys ∨ ys <:+ xs := by
  -- from the last item down: it is the same one, and both threads enter it with one value
  induction xs using List.reverseRecOn generalizing ys stop with
  | nil => exact .inl (List.nil_suffix)
  | append_singleton xs x ih =>
      cases ys using List.reverseRecOn with
      | nil => exact .inr (List.nil_suffix)
      | append_singleton ys y =>
          obtain ⟨hxs, hxstop⟩ := append_singleton_iff.mp hx
          obtain ⟨hys, hystop⟩ := append_singleton_iff.mp hy
          obtain rfl : x = y :=
            hinj x (by simp) y (by simp) (hxstop.trans hystop.symm)
          have hrest : ∀ a ∈ xs, ∀ b ∈ ys, out a = out b → a = b := fun a ha b hb =>
            hinj a (List.mem_append_left _ ha) b (List.mem_append_left _ hb)
          rcases ih hxs hys hrest with ⟨t, rfl⟩ | ⟨t, rfl⟩
          · exact .inl ⟨t, by rw [List.append_assoc]⟩
          · exact .inr ⟨t, by rw [List.append_assoc]⟩

section Order

variable [LinearOrder δ]

theorem bounds (h : Threaded inn out start xs stop) (hup : ∀ x ∈ xs, inn x < out x) :
    start ≤ stop ∧ ∀ x ∈ xs, start ≤ inn x ∧ out x ≤ stop := by
  induction xs generalizing start with
  | nil => exact ⟨le_of_eq h, fun x hx => by cases hx⟩
  | cons x xs ih =>
      obtain ⟨hstart, hrest⟩ := h
      have hx := hup x List.mem_cons_self
      obtain ⟨hle, hmem⟩ := ih hrest fun y hy => hup y (List.mem_cons_of_mem x hy)
      refine ⟨(hstart ▸ hx.le).trans hle, fun y hy => ?_⟩
      rcases List.mem_cons.mp hy with rfl | hy
      · exact ⟨hstart.ge, hle⟩
      · obtain ⟨hlow, hhigh⟩ := hmem y hy
        exact ⟨(hstart ▸ hx.le).trans hlow, hhigh⟩

/-- The intervals of a thread that goes up are in order and do not overlap. -/
theorem pairwise_le (h : Threaded inn out start xs stop) (hup : ∀ x ∈ xs, inn x < out x) :
    xs.Pairwise fun a b => out a ≤ inn b := by
  induction xs generalizing start with
  | nil => exact List.Pairwise.nil
  | cons x xs ih =>
      have htail : ∀ y ∈ xs, inn y < out y := fun y hy => hup y (List.mem_cons_of_mem x hy)
      refine List.pairwise_cons.mpr ⟨fun y hy => ?_, ih h.2 htail⟩
      exact ((h.2.bounds htail).2 y hy).1

/-- **A thread that goes up partitions the range between its ends.** -/
theorem exists_mem_iff (h : Threaded inn out start xs stop) (hup : ∀ x ∈ xs, inn x < out x)
    (p : δ) : (∃ x ∈ xs, p ∈ Set.Ico (inn x) (out x)) ↔ p ∈ Set.Ico start stop := by
  constructor
  · rintro ⟨x, hx, hlow, hhigh⟩
    obtain ⟨hstart, hstop⟩ := (h.bounds hup).2 x hx
    exact ⟨hstart.trans hlow, hhigh.trans_le hstop⟩
  · rintro ⟨hlow, hhigh⟩
    induction xs generalizing start with
    | nil => exact absurd (h ▸ hlow) (not_le_of_gt hhigh)
    | cons x xs ih =>
        by_cases hp : p < out x
        · exact ⟨x, List.mem_cons_self, by rw [h.1]; exact hlow, hp⟩
        · obtain ⟨y, hy, hmem⟩ := ih h.2 (fun y hy => hup y (List.mem_cons_of_mem x hy))
            (not_lt.mp hp)
          exact ⟨y, List.mem_cons_of_mem x hy, hmem⟩

/-- A thread that goes up from where a suffix of it starts is that suffix. -/
theorem eq_of_suffix {stop' : δ} (hx : Threaded inn out start xs stop)
    (hy : Threaded inn out start ys stop') (hup : ∀ x ∈ xs, inn x < out x) (hne : ys ≠ [])
    (h : ys <:+ xs) : ys = xs := by
  obtain ⟨front, rfl⟩ := h
  cases front with
  | nil => rfl
  | cons x front =>
      obtain ⟨middle, hfront, hys⟩ := append_iff.mp hx
      obtain ⟨y, rest, rfl⟩ := List.exists_cons_of_ne_nil hne
      have hmem : ∀ z ∈ front, inn z < out z := fun z hz => hup z (by simp [hz])
      have hgap : start < out x := hfront.1 ▸ hup x (by simp)
      have hmiddle : middle = start := hys.1.symm.trans hy.1
      exact absurd (hgap.trans_le (hfront.2.bounds hmem).1) (hmiddle ▸ lt_irrefl _)

end Order

end Threaded
