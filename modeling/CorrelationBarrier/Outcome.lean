/-!
# Outcomes of calls

* `Failure ε` — why a call gave no answer: an error `ε`, or a panic with its text;
* `Outcome ε α` — an answer or a failure.

A panic is a value here, so that "released on every way out" is a statement about programs.
-/

namespace CorrelationBarrier

/-- Why a call gave no answer: it reported an error, or it broke off with a panic. -/
inductive Failure (ε : Type) where
  | error (cause : ε)
  | panic (text : String)
  deriving DecidableEq

/-- What a call ends with: an answer, or the reason why there is none. -/
abbrev Outcome (ε α : Type) := Except (Failure ε) α

/-- Restates the error of a failure; a panic stays as it is. -/
def Failure.map {ε ε' : Type} (f : ε → ε') : Failure ε → Failure ε'
  | .error e => .error (f e)
  | .panic t => .panic t

namespace Outcome

/-- The outcome of a call that reported an error. -/
def failed {ε α : Type} (e : ε) : Outcome ε α := .error (.error e)

/-- The outcome of a call that panicked. -/
def panicked {ε α : Type} (text : String) : Outcome ε α := .error (.panic text)

end Outcome

end CorrelationBarrier
