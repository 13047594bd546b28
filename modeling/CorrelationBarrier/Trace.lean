import CorrelationBarrier.Barrier.Shared

/-!
# Trace lines

A trace line is an event as it is written to a log: a level, and named fields as text, the name of the event first.
-/

namespace CorrelationBarrier

/-- How much an event matters. -/
inductive Level where
  | trace | debug | warn
  deriving DecidableEq

/-- The name of a level. -/
def Level.name : Level → String
  | .trace => "TRACE"
  | .debug => "DEBUG"
  | .warn => "WARN"

/-- An event with its fields. The first field is called `message` and names the event. -/
structure TraceLine where
  level : Level
  fields : List (String × String)
  deriving DecidableEq

namespace TraceLine

/-- The line of an event with the given name. -/
def of (level : Level) (event : String) (fields : List (String × String)) : TraceLine :=
  ⟨level, ("message", event) :: fields⟩

/-- The line of an event of a barrier. -/
def ofEvent {K M : Type} (keyText : K → String) (messageText : M → String) : Event K M → TraceLine
  | .accepted k m => of .debug "barrier.admit" [("key", keyText k), ("message", messageText m)]
  | .released k m => of .debug "barrier.release" [("key", keyText k), ("message", messageText m)]
  | .drained k => of .debug "barrier.drained" [("key", keyText k)]
  | .staleKey k => of .trace "barrier.stale_key" [("key", keyText k)]

end TraceLine

end CorrelationBarrier
