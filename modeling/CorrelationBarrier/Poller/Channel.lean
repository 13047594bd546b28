import CorrelationBarrier.Outcome

/-!
# Bounded channels

A `Channel M` holds the messages that were sent and not yet received, oldest first, and knows whether somebody may still
receive them. A message is sent only into a free slot (`hasRoom`); `length_push` then keeps the bound.
-/

namespace CorrelationBarrier

/-- A channel with a bounded buffer and one receiver. -/
structure Channel (M : Type) where
  /-- The most messages in the buffer. -/
  capacity : Nat
  buffer : List M := []
  /-- Whether the receiver is still there. -/
  listening : Bool := true
  deriving DecidableEq

namespace Channel

variable {M : Type}

/-- The most slots that a channel can have: the number of free slots takes part of a word only. -/
def maxCapacity : Nat := 2305843009213693951

/-- An empty channel. One without slots could never carry a message, and making it panics. -/
def new (capacity : Nat) : Outcome Empty (Channel M) :=
  if capacity = 0 then Outcome.panicked "mpsc bounded channel requires buffer > 0"
  else if maxCapacity < capacity then
    Outcome.panicked ("a semaphore may not have more than MAX_PERMITS permits (" ++ toString maxCapacity ++ ")")
  else .ok { capacity := capacity }

/-- Whether a slot is free. -/
def hasRoom (c : Channel M) : Bool := c.buffer.length < c.capacity

/-- Puts a message into the buffer. Without a receiver it is lost. -/
def push (c : Channel M) (m : M) : Channel M :=
  if c.listening then { c with buffer := c.buffer ++ [m] } else c

/-- Takes the oldest message out. -/
def receive (c : Channel M) : Option M × Channel M :=
  match c.buffer with
  | [] => (none, c)
  | m :: rest => (some m, { c with buffer := rest })

/-- Drops the receiver, and with it what it did not receive. -/
def hangUp (c : Channel M) : Channel M := { c with buffer := [], listening := false }

theorem length_push {c : Channel M} (h : c.hasRoom) (m : M) : (c.push m).buffer.length ≤ c.capacity := by
  have h : c.buffer.length < c.capacity := by simpa [hasRoom] using h
  unfold push
  split
  · simpa using Nat.succ_le_of_lt h
  · exact Nat.le_of_lt h

end Channel

end CorrelationBarrier
