import Mathlib.Algebra.Order.Ring.Nat

/-!
# Errors at the HTTP boundary
-/

namespace ShardTelemetry

/-- The response statuses of the modelled operations. -/
inductive StatusCode where
  | badRequest
  | internalServerError
  deriving DecidableEq

/-- HTTP-boundary failure with a stable response status and safe message. -/
structure LokiApiError where
  status : StatusCode
  message : String
  deriving DecidableEq

namespace LokiApiError

def badRequest (message : String) : LokiApiError := ⟨.badRequest, message⟩

def internal (message : String) : LokiApiError := ⟨.internalServerError, message⟩

def configuration (message : String) : LokiApiError := internal message

end LokiApiError

/-- The results of fallible operations at this boundary. -/
abbrev LokiResult (α : Type) : Type := Except LokiApiError α

variable {α β : Type}

/-- `Option::ok_or_else` -/
def orElse (error : LokiApiError) : Option α → LokiResult α
  | some a => .ok a
  | none => .error error

@[simp] theorem orElse_eq_ok : orElse error x = .ok a ↔ x = some a := by
  cases x <;> simp [orElse]

/-- Go on only if a condition holds. -/
def check (condition : Bool) (error : LokiApiError) : LokiResult Unit :=
  if condition then .ok () else .error error

@[simp] theorem check_eq_ok : check condition error = .ok u ↔ condition = true := by
  cases condition <;> simp [check]

/-- Peel one step off a computation that succeeded. -/
theorem andThen_eq_ok {f : α → LokiResult β} :
    (x >>= f) = .ok b ↔ ∃ a, x = .ok a ∧ f a = .ok b := by
  cases x <;> simp [bind, Except.bind]

end ShardTelemetry
