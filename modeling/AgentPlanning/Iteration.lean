/-!
# Bounded Iteration

Both planners repeat a step until it ends with an answer. A run is given a number of steps that
it may take, and taking more never changes an answer that was reached.
-/

namespace AgentPlanning

variable {σ ρ : Type}

/-- Repeats `step` from `s` until it ends with an answer; `none` if that takes more than the
given number of steps. -/
def runWithin (step : σ → Except ρ σ) : Nat → σ → Option ρ
  | 0, _ => none
  | steps + 1, s =>
    match step s with
    | .error answer => some answer
    | .ok next => runWithin step steps next

/-- An answer that was reached stays the same when more steps are allowed. -/
theorem runWithin_mono {step : σ → Except ρ σ} {m n : Nat} {s : σ} {answer : ρ}
    (hmn : m ≤ n) (h : runWithin step m s = some answer) : runWithin step n s = some answer := by
  induction m generalizing n s with
  | zero => simp [runWithin] at h
  | succ m ih =>
    obtain ⟨n, rfl⟩ : ∃ k, n = k + 1 := ⟨n - 1, by omega⟩
    rw [runWithin] at h ⊢
    split at h
    · simpa using h
    · exact ih (by omega) h

/-- A property that every step keeps holds in the state in which the answer is given. -/
theorem exists_step_of_runWithin {step : σ → Except ρ σ} {P : σ → Prop}
    (keep : ∀ s next, P s → step s = .ok next → P next) {n : Nat} {s : σ} {answer : ρ}
    (hs : P s) (h : runWithin step n s = some answer) : ∃ t, P t ∧ step t = .error answer := by
  induction n generalizing s with
  | zero => simp [runWithin] at h
  | succ n ih =>
    rw [runWithin] at h
    split at h
    next heq => exact ⟨s, hs, by simpa [heq] using h⟩
    next next heq => exact ih (keep s next hs heq) h

end AgentPlanning
