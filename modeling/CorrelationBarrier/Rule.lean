import CorrelationBarrier.Error
import CorrelationBarrier.Group

/-!
# Correlation and release rules

* `Correlation K M` — the key under which a message is held;
* `ReleaseRule K M` — whether a group may release messages now.

Both may fail or panic. A release rule is asked anew on every visit and sees the group as it is at that instant.
-/

namespace CorrelationBarrier

/-- Derives the key of a message. -/
abbrev Correlation (K M : Type) := M → Outcome StrategyError K

/-- Judges a group at an instant. -/
abbrev ReleaseRule (K M : Type) := Group K M → Instant → Outcome StrategyError Bool

namespace Correlation

variable {α : Type}

/-- The key is the correlation id. -/
def byCorrelationId : Correlation String (Message α) := fun m =>
  match m.headers.correlationId with
  | some cid => .ok cid
  | none => Outcome.failed (.missingHeader "correlation_id" m.id)

/-- The key is the value of the attribute with the given name. -/
def byAttribute (name : String) : Correlation String (Message α) := fun m =>
  match m.headers.attribute name with
  | some value => .ok value
  | none => Outcome.failed (.missingHeader name m.id)

/-- The key of a tagged value is its tag. A tag that begins with an exclamation mark is refused, and the rest of it is the
reason. -/
def byTag : Correlation String (String × α) := fun m =>
  match m.1.toList with
  | '!' :: reason => Outcome.failed (.failed (String.ofList reason))
  | _ => .ok m.1

/-- The key of a number is its remainder, which has the sign of the number. -/
def byRemainder (modulus : Int) : Correlation Int Int := fun n =>
  if modulus = 0 then Outcome.failed (.failed "modulus is zero") else .ok (n.tmod modulus)

end Correlation

namespace ReleaseRule

variable {K M α : Type}

/-- Judges by a predicate on the group, which neither fails nor looks at the clock. -/
def when (p : Group K M → Bool) : ReleaseRule K M := fun g _ => .ok (p g)

/-- Every group may release. -/
def always : ReleaseRule K M := when fun _ => true

/-- No group may release. -/
def never : ReleaseRule K M := when fun _ => false

/-- A group of at least `n` messages may release. -/
def minSize (n : Nat) : ReleaseRule K M := when fun g => n ≤ g.size

/-- A group of at most `n` messages may release. -/
def maxSize (n : Nat) : ReleaseRule K M := when fun g => g.size ≤ n

/-- A group with an unmarked message that satisfies `p` may release. -/
def unmarkedHas (p : M → Bool) : ReleaseRule K M := when fun g => g.unmarked.any p

/-- A group with a marked message that satisfies `p` may release. -/
def markedHas (p : M → Bool) : ReleaseRule K M := when fun g => g.marked.any p

/-- A group may release once no message has come in for a span of time. -/
def quietFor (span : Span) : ReleaseRule K M := fun g now => .ok (span ≤ Span.elapsed g.updatedAt now)

/-- A group may release once it holds as many messages as its sequence has. The size is announced by the first unmarked
message, or by the first marked one if all are marked. An empty group may not release. -/
def sequenceComplete : ReleaseRule K (Message α) := fun g _ =>
  match g.unmarked.head? <|> g.marked.head? with
  | none => .ok false
  | some first =>
    match first.headers.sequenceSize with
    | some expected => .ok (expected ≤ g.size)
    | none => Outcome.failed (.missingHeader "sequence_size" first.id)

/-- Fails always. -/
def failing (reason : String) : ReleaseRule K M := fun _ _ => Outcome.failed (.failed reason)

/-- Panics on a group with an unmarked message that satisfies `p`; every other group may release. -/
def panicking (text : String) (p : M → Bool) : ReleaseRule K M := fun g _ =>
  if g.unmarked.any p then Outcome.panicked text else .ok true

/-- Holds back the groups whose key does not satisfy `isOpen`, without asking the rule. -/
def gated (isOpen : K → Bool) (rule : ReleaseRule K M) : ReleaseRule K M := fun g now =>
  if isOpen g.key then rule g now else .ok false

end ReleaseRule

end CorrelationBarrier
