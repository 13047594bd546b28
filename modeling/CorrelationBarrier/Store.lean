import CorrelationBarrier.Error
import CorrelationBarrier.Group

/-!
# The group store in memory

`GroupStore K M` holds a group per key and counts the messages in all of them. With a capacity above zero it refuses a
message that would exceed it. Adding makes a group where there is none; a group that becomes empty stays until it is
dropped.
-/

namespace CorrelationBarrier

/-- A store of message groups. -/
structure GroupStore (K M : Type) where
  /-- The most messages in all groups; zero means no bound. -/
  capacity : Nat
  groups : Assoc K (Group K M)
  /-- The number of messages in all groups, marked or not. -/
  messages : Nat

namespace GroupStore

variable {K M : Type}

/-- The store without groups. -/
def empty (capacity : Nat) : GroupStore K M := ⟨capacity, Assoc.empty, 0⟩

/-- The number of groups. -/
def groupCount (s : GroupStore K M) : Nat := s.groups.size

/-- Whether the store takes no further message. -/
def full (s : GroupStore K M) : Bool := 0 < s.capacity && s.capacity ≤ s.messages

/-- The store as a printed value: its counts only. -/
def layout (s : GroupStore K M) : Layout :=
  .record "MemoryGroupStore"
    [("capacity", .word (toString s.capacity)), ("groups", .word (toString s.groupCount)),
     ("messages", .word (toString s.messages))]

variable [DecidableEq K]

/-- The group of a key. -/
def group (s : GroupStore K M) (k : K) : Option (Group K M) := s.groups.get? k

/-- Adds a message to the group of its key, unless the store is full. -/
def add (s : GroupStore K M) (now : Instant) (k : K) (m : M) : Except StoreError (GroupStore K M) :=
  if s.full then .error (.capacityExceeded s.capacity)
  else
    let g := (s.group k).getD { key := k, createdAt := now, updatedAt := now }
    .ok { s with groups := s.groups.set k (g.push now m), messages := s.messages + 1 }

/-- Puts a changed group in the place of the group of its key. What it has lost is taken off the count. -/
def change (s : GroupStore K M) (k : K) (f : Group K M → Group K M) : GroupStore K M :=
  match s.group k with
  | none => s
  | some g => { s with groups := s.groups.set k (f g), messages := s.messages - (g.size - (f g).size) }

/-- Removes a message from the group of a key, marked or not. -/
def remove [BEq M] (s : GroupStore K M) (k : K) (m : M) : GroupStore K M := s.change k (·.remove m)

/-- Marks a message in the group of a key. -/
def mark [BEq M] (s : GroupStore K M) (k : K) (m : M) : GroupStore K M := s.change k (·.mark m)

/-- Drops the group of a key with all its messages. -/
def dropGroup (s : GroupStore K M) (k : K) : GroupStore K M :=
  match s.group k with
  | none => s
  | some g => { s with groups := s.groups.erase k, messages := s.messages - g.size }

end GroupStore

end CorrelationBarrier
