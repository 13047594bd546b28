import CorrelationBarrier.Barrier.Basic
import CorrelationBarrier.Poller.Loop

/-!
# Sources of messages

A `Source σ ω M` in a state `σ` answers pulls, and takes in actions `ω` of the outside world. `Source.script` answers as
written, and `Source.barrier` from what a barrier accepted meanwhile.
-/

namespace CorrelationBarrier

/-- What answers the pulls of a poll loop. -/
structure Source (σ ω M : Type) where
  pull : σ → Pulled M × σ
  /-- Takes in an action, and answers the lines that it writes to the log. -/
  act : ω → σ → List TraceLine × σ
  /-- Whether an answer goes into the list of pulls. -/
  lists : Pulled M → Bool := fun _ => true

namespace Source

variable {K M : Type}

/-- Answers as written, and with nothing after the end. -/
def script : Source (List (Pulled M)) Empty M where
  pull
    | [] => (.ok none, [])
    | answer :: rest => (answer, rest)
  act _ s := ([], s)

/-- A barrier with a clock, which moves on by one with every operation. -/
structure Tended (K M : Type) where
  barrier : Barrier K M
  clock : Instant := 0

/-- A barrier that accepts the messages of the outside world. It lists a pull when it comes back, and one that panics does
not come back. -/
def barrier [DecidableEq K] [BEq M] (keyText : K → String) (messageText : M → String) (idText : MessageId → String) :
    Source (Tended K M) M M where
  pull s :=
    let (outcome, b) := s.barrier.pull { now := s.clock } .asListed
    (outcome.mapError (Failure.map (BarrierError.message keyText idText)), ⟨b.clearJournal, s.clock + 1⟩)
  act m s :=
    let (_, b) := s.barrier.accept { now := s.clock } m
    (b.events.map (TraceLine.ofEvent keyText messageText), ⟨b.clearJournal, s.clock + 1⟩)
  lists
    | .error (.panic _) => false
    | _ => true

end Source

end CorrelationBarrier
