/-! How programs run that keep a state and can fail: what comes after a step that went well, and after
one that failed. -/

namespace NestClient.Steps

variable {ε σ α β : Type} {c : ExceptT ε (StateM σ) α} {f : α → ExceptT ε (StateM σ) β}
  {handle : ε → ExceptT ε (StateM σ) α} {s s' : σ} {a : α} {e : ε}

theorem run_bind (c : ExceptT ε (StateM σ) α) (f : α → ExceptT ε (StateM σ) β) (s : σ) :
    (c >>= f).run.run s = match c.run.run s with
      | (.ok a, s') => (f a).run.run s'
      | (.error e, s') => (.error e, s') := by
  simp only [ExceptT.run_bind, StateT.run_bind]
  rcases c.run.run s with ⟨r, s'⟩
  cases r <;> rfl

theorem run_tryCatch (c : ExceptT ε (StateM σ) α) (handle : ε → ExceptT ε (StateM σ) α) (s : σ) :
    (tryCatch c handle).run.run s = match c.run.run s with
      | (.ok a, s') => (.ok a, s')
      | (.error e, s') => (handle e).run.run s' := by
  simp only [ExceptT.run_tryCatch, StateT.run_bind]
  rcases c.run.run s with ⟨r, s'⟩
  cases r <;> rfl

theorem bind_ok (h : c.run.run s = (.ok a, s')) : (c >>= f).run.run s = (f a).run.run s' := by
  rw [run_bind, h]

theorem bind_error (h : c.run.run s = (.error e, s')) : (c >>= f).run.run s = (.error e, s') := by
  rw [run_bind, h]

theorem exists_of_bind_ok {b : β} (h : (c >>= f).run.run s = (.ok b, s')) :
    ∃ a t, c.run.run s = (.ok a, t) ∧ (f a).run.run t = (.ok b, s') := by
  rw [run_bind] at h
  split at h
  next a t hc => exact ⟨a, t, hc, h⟩
  next => cases h

theorem catch_ok (h : c.run.run s = (.ok a, s')) : (tryCatch c handle).run.run s = (.ok a, s') := by
  rw [run_tryCatch, h]

theorem catch_error (h : c.run.run s = (.error e, s')) :
    (tryCatch c handle).run.run s = (handle e).run.run s' := by
  rw [run_tryCatch, h]

end NestClient.Steps
