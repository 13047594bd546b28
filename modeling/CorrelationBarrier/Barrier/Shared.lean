import CorrelationBarrier.Program
import CorrelationBarrier.Rule
import CorrelationBarrier.Store

/-!
# What the threads of a barrier share

Beside the lock table, the threads of a barrier share a group store, four counters, and a journal of the calls made on the
store and the events reported. `Request` lists what a thread can ask of them, and `Shared.perform` answers one request as
one atomic step. Under `Surroundings` a call on the store can fail before it takes effect.
-/

namespace CorrelationBarrier

/-- The calls on a store, by name. -/
inductive StoreMethod where
  | add | group | remove | mark | dropGroup
  deriving DecidableEq

/-- How a call on a store fails before it takes effect. -/
inductive Fault where
  | fails (reason : String)
  | panics (text : String)
  deriving DecidableEq

/-- The failure that a fault shows to the caller. -/
def Fault.failure : Fault → Failure StoreError
  | .fails reason => .error (.backend reason)
  | .panics text => .panic text

/-- The circumstances of a step: the time, and which calls on the store fail. -/
structure Surroundings where
  now : Instant := 0
  fault : StoreMethod → Option Fault := fun _ => none

/-- What a barrier has done so far. The counters are words and start again after `2 ^ 64 - 1`. -/
structure Stats where
  /-- Messages accepted. -/
  accepted : UInt64 := 0
  /-- Messages handed out. -/
  released : UInt64 := 0
  /-- Drained groups dropped together with their key. -/
  groupsRemoved : UInt64 := 0
  /-- Visits to keys without a group. -/
  staleKeys : UInt64 := 0
  deriving DecidableEq

/-- The counters by name. -/
inductive Counter where
  | accepted | released | groupsRemoved | staleKeys
  deriving DecidableEq

/-- The counters with one of them raised by one. -/
def Stats.bump (s : Stats) : Counter → Stats
  | .accepted => { s with accepted := s.accepted + 1 }
  | .released => { s with released := s.released + 1 }
  | .groupsRemoved => { s with groupsRemoved := s.groupsRemoved + 1 }
  | .staleKeys => { s with staleKeys := s.staleKeys + 1 }

/-- What a barrier reports. -/
inductive Event (K M : Type) where
  | accepted (key : K) (message : M)
  | released (key : K) (message : M)
  | drained (key : K)
  | staleKey (key : K)
  deriving DecidableEq

/-- A line of the journal: a call on the store, or an event. -/
inductive Entry (K M : Type) where
  | called (method : StoreMethod) (key : K)
  | counted
  | reported (event : Event K M)
  deriving DecidableEq

/-- What a thread can ask of the shared data. -/
inductive Request (K M : Type) where
  | add (key : K) (message : M)
  | group (key : K)
  | remove (key : K) (message : M)
  | mark (key : K) (message : M)
  | dropGroup (key : K)
  | clock
  | count (counter : Counter)
  | report (event : Event K M)

namespace Request

variable {K M : Type}

/-- The type of the reply to a request. -/
def Reply : Request K M → Type
  | .group _ => Outcome StoreError (Option (Group K M))
  | .clock => Instant
  | .count _ => Unit
  | .report _ => Unit
  | _ => Outcome StoreError Unit

/-- The call on the store that a request is, with its key. -/
def method? : Request K M → Option (StoreMethod × K)
  | .add k _ => some (.add, k)
  | .group k => some (.group, k)
  | .remove k _ => some (.remove, k)
  | .mark k _ => some (.mark, k)
  | .dropGroup k => some (.dropGroup, k)
  | _ => none

/-- The requests as an interface for programs. -/
abbrev interface (K M : Type) : Interface := ⟨Request K M, Reply⟩

end Request

/-- The data that the threads of a barrier share. The journal has its newest entry first. -/
structure Shared (K M : Type) where
  store : GroupStore K M
  stats : Stats := {}
  journal : List (Entry K M) := []

namespace Shared

variable {K M : Type} [DecidableEq K] [BEq M]

/-- Makes a call on the store: it is noted, then it fails if it has to, and else it takes effect. -/
def onStore {α : Type} (env : Surroundings) (method : StoreMethod) (k : K)
    (effect : GroupStore K M → Except StoreError (α × GroupStore K M)) (s : Shared K M) :
    Outcome StoreError α × Shared K M :=
  let s := { s with journal := .called method k :: s.journal }
  match env.fault method with
  | some fault => (.error fault.failure, s)
  | none =>
    match effect s.store with
    | .error e => (Outcome.failed e, s)
    | .ok (a, store) => (.ok a, { s with store := store })

/-- Answers a request. -/
def perform (env : Surroundings) : (c : Request K M) → Shared K M → c.Reply × Shared K M
  | .add k m, s => s.onStore env .add k fun store => (store.add env.now k m).map ((), ·)
  | .group k, s => s.onStore env .group k fun store => .ok (store.group k, store)
  | .remove k m, s => s.onStore env .remove k fun store => .ok ((), store.remove k m)
  | .mark k m, s => s.onStore env .mark k fun store => .ok ((), store.mark k m)
  | .dropGroup k, s => s.onStore env .dropGroup k fun store => .ok ((), store.dropGroup k)
  | .clock, s => (env.now, s)
  | .count counter, s => ((), { s with stats := s.stats.bump counter })
  | .report event, s => ((), { s with journal := .reported event :: s.journal })

/-- The shared data as a service for programs. -/
def service : Service (Request.interface K M) Surroundings (Shared K M) := perform

end Shared

end CorrelationBarrier
