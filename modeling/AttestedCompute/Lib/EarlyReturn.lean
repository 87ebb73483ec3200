import AttestedCompute.Lib.Fallible

/-!
# Code that writes and may return early

A C function works on memory it shares with its caller and can return an error code at any
point. What it wrote before stays written: an early return undoes nothing. Such a function
fails without a trace when all its checks come before its first write, and that is a fact
about its parts (`atomic_bind`, `Total.atomic`).
-/

/-- Code over a memory `σ` that may return early with an `ε`. -/
abbrev Code (ε σ : Type) := ExceptT ε (StateM σ)

namespace Code

variable {ε σ α β : Type}

/-- The result and the memory that is left. -/
def exec (p : Code ε σ α) (m : σ) : Except ε α × σ := p.run.run m

/-- A check: it reads what it was given and may return early. -/
def check (x : Except ε α) : Code ε σ α := ExceptT.mk (pure x)

/-- A read of the memory. -/
def look (f : σ → α) : Code ε σ α := ExceptT.mk fun m => pure (.ok (f m), m)

/-- A write. -/
def write (f : σ → σ) : Code ε σ Unit := ExceptT.mk fun m => pure (.ok (), f m)

@[simp] theorem exec_pure (a : α) (m : σ) : (pure a : Code ε σ α).exec m = (.ok a, m) := rfl

@[simp] theorem exec_check (x : Except ε α) (m : σ) : (check x : Code ε σ α).exec m = (x, m) := rfl

@[simp] theorem exec_look (f : σ → α) (m : σ) :
    (look f : Code ε σ α).exec m = (.ok (f m), m) := rfl

@[simp] theorem exec_write (f : σ → σ) (m : σ) :
    (write f : Code ε σ Unit).exec m = (.ok (), f m) := rfl

theorem exec_bind_ok {p : Code ε σ α} {m m' : σ} {a : α} (h : p.exec m = (.ok a, m'))
    (f : α → Code ε σ β) : (p >>= f).exec m = (f a).exec m' := by
  change (ExceptT.run (p >>= f)).run m = _
  rw [ExceptT.run_bind, StateT.run_bind, show (ExceptT.run p).run m = (.ok a, m') from h]
  rfl

theorem exec_bind_error {p : Code ε σ α} {m m' : σ} {e : ε} (h : p.exec m = (.error e, m'))
    (f : α → Code ε σ β) : (p >>= f).exec m = (.error e, m') := by
  change (ExceptT.run (p >>= f)).run m = _
  rw [ExceptT.run_bind, StateT.run_bind, show (ExceptT.run p).run m = (.error e, m') from h]
  rfl

@[simp] theorem exec_look_bind (g : σ → α) (f : α → Code ε σ β) (m : σ) :
    (look g >>= f).exec m = (f (g m)).exec m := exec_bind_ok (exec_look g m) f

@[simp] theorem exec_write_bind (g : σ → σ) (f : Unit → Code ε σ β) (m : σ) :
    (write g >>= f).exec m = (f ()).exec (g m) := exec_bind_ok (exec_write g m) f

/-- Two checks in a row are one check. -/
theorem check_bind (x : Except ε α) (f : α → Except ε β) :
    (check (x >>= f) : Code ε σ β) = check x >>= fun a => check (f a) := by
  rcases x with e | a <;> rfl

/-! ## Code that fails without a trace -/

/-- It writes nothing, whether it returns early or not. -/
def ReadOnly (p : Code ε σ α) : Prop := ∀ m, (p.exec m).2 = m

/-- It never returns early. -/
def Total (p : Code ε σ α) : Prop := ∀ m, ∃ a m', p.exec m = (.ok a, m')

/-- Where it returns early it has written nothing. -/
def Atomic (p : Code ε σ α) : Prop := ∀ m e m', p.exec m = (.error e, m') → m' = m

theorem readOnly_check (x : Except ε α) : ReadOnly (check x : Code ε σ α) := fun _ => rfl

theorem readOnly_look (f : σ → α) : ReadOnly (look f : Code ε σ α) := fun _ => rfl

theorem total_write (f : σ → σ) : Total (write f : Code ε σ Unit) := fun m => ⟨(), f m, rfl⟩

theorem total_look (f : σ → α) : Total (look f : Code ε σ α) := fun m => ⟨f m, m, rfl⟩

theorem total_pure (a : α) : Total (pure a : Code ε σ α) := fun m => ⟨a, m, rfl⟩

theorem total_bind {p : Code ε σ α} {f : α → Code ε σ β} (hp : Total p) (hf : ∀ a, Total (f a)) :
    Total (p >>= f) := by
  intro m
  obtain ⟨a, m', hrun⟩ := hp m
  rw [exec_bind_ok hrun]
  exact hf a m'

theorem Total.atomic {p : Code ε σ α} (hp : Total p) : Atomic p := by
  intro m e m' h
  obtain ⟨a, m'', hrun⟩ := hp m
  rw [hrun] at h
  cases h

/-- **Checks before writes.** -/
theorem atomic_bind {p : Code ε σ α} {f : α → Code ε σ β} (hp : ReadOnly p)
    (hf : ∀ a, Atomic (f a)) : Atomic (p >>= f) := by
  intro m e m' h
  have hkept := hp m
  rcases hrun : p.exec m with ⟨r, m''⟩
  rw [hrun] at hkept
  subst hkept
  cases r with
  | error e' =>
      rw [exec_bind_error hrun] at h
      exact (congrArg Prod.snd h).symm
  | ok a =>
      rw [exec_bind_ok hrun] at h
      exact hf a _ e m' h

end Code
