import CorrelationBarrier.Message
import CorrelationBarrier.Outcome

/-!
# Errors

* `StrategyError` — a correlation or a release rule could not answer;
* `StoreError` — a store refused a call;
* `BarrierError K` — what an operation of a barrier with keys `K` reports.

Each has a wording (`message`), a printed value (`layout`) and a chain of causes (`causes`), outermost first. How message
ids and keys are written is a parameter.
-/

namespace CorrelationBarrier

/-- Why a correlation or a release rule could not answer. -/
inductive StrategyError where
  /-- A header that the rule needs is not there. -/
  | missingHeader (header : String) (id : MessageId)
  /-- The rule failed for a reason of its own. -/
  | failed (reason : String)
  /-- The rule failed because another one did. -/
  | failedBy (cause : StrategyError)
  deriving DecidableEq, Inhabited

/-- Why a store refused a call. -/
inductive StoreError where
  /-- The store holds as many messages as it may. -/
  | capacityExceeded (capacity : Nat)
  /-- The store failed for a reason of its own. -/
  | backend (reason : String)
  /-- The store failed because another one did. -/
  | backendBy (cause : StoreError)
  deriving DecidableEq, Inhabited

/-- Why an operation of a barrier gave no answer; the collaborator's error is passed on as it is. -/
inductive BarrierError (K : Type) where
  /-- No key could be derived, and nothing was admitted. -/
  | correlation (cause : StrategyError)
  /-- The release rule could not judge the group of the key. -/
  | release (key : K) (cause : StrategyError)
  /-- The store refused a call. -/
  | store (cause : StoreError)
  deriving DecidableEq

namespace StrategyError

/-- The wording of an error. -/
def message (idText : MessageId → String) : StrategyError → String
  | .missingHeader header id => "message " ++ idText id ++ " has no `" ++ header ++ "` header"
  | .failed reason => "strategy failed: " ++ reason
  | .failedBy cause => "strategy failed: " ++ cause.message idText

/-- The error as a printed value. -/
def layout (idText : MessageId → String) : StrategyError → Layout
  | .missingHeader header id =>
    .record "MissingHeader" [("header", .word (Text.quote header)), ("message_id", .word (idText id))]
  | .failed reason => .applied "Failed" [.word (Text.quote reason)]
  | .failedBy cause => .applied "Failed" [cause.layout idText]

/-- The wordings of the causes behind an error. -/
def causes (idText : MessageId → String) : StrategyError → List String
  | .missingHeader _ _ => []
  | .failed reason => [reason]
  | .failedBy cause => cause.message idText :: cause.causes idText

end StrategyError

namespace StoreError

/-- The wording of an error. -/
def message : StoreError → String
  | .capacityExceeded capacity => "message group store is full (capacity " ++ toString capacity ++ ")"
  | .backend reason => "message group store failed: " ++ reason
  | .backendBy cause => "message group store failed: " ++ cause.message

/-- The error as a printed value. -/
def layout : StoreError → Layout
  | .capacityExceeded capacity => .record "CapacityExceeded" [("capacity", .word (toString capacity))]
  | .backend reason => .applied "Backend" [.word (Text.quote reason)]
  | .backendBy cause => .applied "Backend" [cause.layout]

/-- The wordings of the causes behind an error. -/
def causes : StoreError → List String
  | .capacityExceeded _ => []
  | .backend reason => [reason]
  | .backendBy cause => cause.message :: cause.causes

end StoreError

namespace BarrierError

variable {K : Type}

/-- The wording of an error. A store error speaks for itself. -/
def message (keyText : K → String) (idText : MessageId → String) : BarrierError K → String
  | .correlation cause => "correlation failed: " ++ cause.message idText
  | .release key cause => "release strategy failed for key " ++ keyText key ++ ": " ++ cause.message idText
  | .store cause => cause.message

/-- The error as a printed value. -/
def layout (keyText : K → String) (idText : MessageId → String) : BarrierError K → Layout
  | .correlation cause => .applied "Correlation" [cause.layout idText]
  | .release key cause =>
    .record "Release" [("key", .word (Text.quote (keyText key))), ("source", cause.layout idText)]
  | .store cause => .applied "Store" [cause.layout]

/-- The wordings of the causes behind an error. A store error is no cause of its own. -/
def causes (idText : MessageId → String) : BarrierError K → List String
  | .correlation cause => cause.message idText :: cause.causes idText
  | .release _ cause => cause.message idText :: cause.causes idText
  | .store cause => cause.causes

end BarrierError

end CorrelationBarrier
