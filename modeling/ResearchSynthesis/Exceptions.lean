-- SUMMARY: Python exceptions as the modelled code tells them apart.
import ResearchSynthesis.Python.Text

/-!
# Exceptions

An exception is its class, as far as the code looks at it, and its text. That
`str(exc)` returns is an assumption of the model: the handlers call it, and what it
raised would leave them. `BaseException`s that are not `Exception`s, such as a
cancelled task, are outside the model.
-/

namespace ResearchSynthesis
open Python

inductive ExceptionClass where
  | valueError
  | keyError
  | osError
  | unicodeEncodeError
  /-- `tavily.errors.UsageLimitExceededError` -/
  | usageLimitExceededError
  /-- `httpx.HTTPStatusError`, with `exc.response.status_code` -/
  | httpStatusError (statusCode : Int)
  | other
  deriving DecidableEq

structure Exn where
  cls : ExceptionClass
  message : Str

theorem bind_eq_ok_iff {α β : Type} {x : Except Exn α} {f : α → Except Exn β} {b : β} :
    x >>= f = .ok b ↔ ∃ a, x = .ok a ∧ f a = .ok b := by
  cases x <;> simp [bind, Except.bind]

theorem bind_eq_error_iff {α β : Type} {x : Except Exn α} {f : α → Except Exn β} {e : Exn} :
    x >>= f = .error e ↔ x = .error e ∨ ∃ a, x = .ok a ∧ f a = .error e := by
  cases x <;> simp [bind, Except.bind]

end ResearchSynthesis
