/-! # Steps one after the other

A computation that may fail succeeds exactly when each of its steps does.
-/

namespace Understudy

variable {ε α β : Type}

theorem bind_eq_ok_iff {x : Except ε α} {f : α → Except ε β} {b : β} :
    x >>= f = .ok b ↔ ∃ a, x = .ok a ∧ f a = .ok b := by
  cases x with
  | error e => simp [bind, Except.bind]
  | ok a => simp [bind, Except.bind]

/-- What fails in a sequence is its first step, or the second after the first has succeeded. -/
theorem bind_eq_error_iff {x : Except ε α} {f : α → Except ε β} {e : ε} :
    x >>= f = .error e ↔ x = .error e ∨ ∃ a, x = .ok a ∧ f a = .error e := by
  cases x with
  | error e' => simp [bind, Except.bind]
  | ok a => simp [bind, Except.bind]

/-- A run over a list succeeds when the run up to the last element does, and then its last step. -/
theorem foldlM_concat_eq_ok_iff {step : β → α → Except ε β} {steps : List α} {last : α}
    {start b : β} :
    (steps ++ [last]).foldlM step start = .ok b ↔
      ∃ middle, steps.foldlM step start = .ok middle ∧ step middle last = .ok b := by
  rw [List.foldlM_append, bind_eq_ok_iff]
  simp only [List.foldlM_cons, List.foldlM_nil, bind_pure]

end Understudy
