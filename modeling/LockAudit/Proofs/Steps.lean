/-!
# `LockAudit.Proofs.Steps` — steps that may fail

Most of the library's functions are rows of steps of which each may fail. Two laws take such a row apart:
if it succeeds, all its steps do (`exists_of_bind_ok`); if it fails, one of them does, and those before it
succeed (`bind_error`). `map_error` and `mapM_error` are the second law for a step whose result is changed,
and for one step that is taken many times.
-/

namespace LockAudit

variable {ε α β : Type} {x : Except ε α} {f : α → Except ε β} {e : ε}

theorem eq_ok_of_toOption {a : α} (h : x.toOption = some a) : x = .ok a := by
  cases x with
  | error e => cases h
  | ok b => exact congrArg Except.ok (Option.some.inj h)

/-- Two steps that succeed together succeed one after the other. -/
theorem exists_of_bind_ok {b : β} (h : x >>= f = .ok b) : ∃ a, x = .ok a ∧ f a = .ok b := by
  cases x with
  | error e => cases h
  | ok a => exact ⟨a, rfl, h⟩

/-- A row of steps that fails fails at one of them. -/
theorem bind_error (h : x >>= f = .error e) : x = .error e ∨ ∃ a, x = .ok a ∧ f a = .error e := by
  cases x with
  | error d =>
    have hd : d = e := Except.error.inj (show (Except.error d : Except ε β) = .error e from h)
    exact .inl (by rw [hd])
  | ok a => exact .inr ⟨a, rfl, h⟩

/-- What is done with a result is done with one. -/
theorem exists_of_map_ok {g : α → β} {b : β} (h : g <$> x = .ok b) : ∃ a, x = .ok a ∧ g a = b := by
  cases x with
  | error e => cases h
  | ok a => exact ⟨a, rfl, Except.ok.inj h⟩

/-- What is done with a result does not fail by itself. -/
theorem map_error {g : α → β} (h : g <$> x = .error e) : x = .error e := by
  cases x with
  | error d => exact congrArg Except.error (Except.error.inj h)
  | ok a => cases h

/-- A step that fails for a list fails for one of its elements. -/
theorem mapM_error {xs : List α} (h : xs.mapM f = .error e) : ∃ a ∈ xs, f a = .error e := by
  induction xs with
  | nil => cases h
  | cons a xs ih =>
    rw [List.mapM_cons] at h
    rcases bind_error h with h | ⟨b, -, h⟩
    · exact ⟨a, List.mem_cons_self, h⟩
    rcases bind_error h with h | ⟨bs, -, h⟩
    · obtain ⟨c, hc, hf⟩ := ih h
      exact ⟨c, List.mem_cons_of_mem a hc, hf⟩
    · cases h

end LockAudit
