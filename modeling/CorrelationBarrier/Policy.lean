/-!
# Choices made once for a barrier

* `TokenPolicy` — what a section does with a token that was retired while it waited;
* `ReleaseMode` — what a pull does with a message that it hands out.
-/

namespace CorrelationBarrier

/-- How a section treats a token that was retired while it waited for it. -/
inductive TokenPolicy where
  /-- It runs under the retired token anyway: exclusion holds per token instance. -/
  | tolerant
  /-- It lets go and fetches the current token: exclusion holds per key. -/
  | validated
  deriving DecidableEq

/-- What a pull does with a message that it hands out. -/
inductive ReleaseMode where
  /-- The message leaves its group, which shrinks with every release. -/
  | remove
  /-- The message moves to the marked part of its group, which keeps its size until it is dropped. -/
  | mark
  deriving DecidableEq

/-- The name of a policy in printed values. -/
def TokenPolicy.name : TokenPolicy → String
  | .tolerant => "Tolerant"
  | .validated => "Validated"

/-- The name of a mode in printed values. -/
def ReleaseMode.name : ReleaseMode → String
  | .remove => "Remove"
  | .mark => "Mark"

end CorrelationBarrier
