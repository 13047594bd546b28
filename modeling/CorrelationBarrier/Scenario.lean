import CorrelationBarrier.Barrier.Threads
import CorrelationBarrier.Trace

/-!
# Scenarios on one barrier

A scenario is a list of steps on one barrier: its operations, direct calls on its store, changes of its circumstances
(faults, a gate, another release rule), looks at its state, and races of two threads. `Scenario.play` answers each step with
what it came to, the state after it, and the events reported by it.

Each step takes place at a time of its own, so that two messages never come in at the same instant.
-/

namespace CorrelationBarrier

namespace Scenario

variable {K M : Type}

/-- A step of a scenario. -/
inductive Step (K M : Type) where
  | operate (operation : Operation K M)
  /-- Pulls until nothing comes, at most `limit` times. -/
  | drain (limit : Nat)
  | keys
  | state
  | count
  /-- A call on the store without the token of the key. -/
  | store (request : Request K M)
  /-- From now on calls by this method fail for the given reason; without a reason they work again. -/
  | fault (method : StoreMethod) (reason : Option String)
  /-- The calls on the store since the last such step. -/
  | calls
  /-- From now on only groups of these keys may release; `none` opens the gate for all. -/
  | gate (only : Option (List K))
  | rule (release : ReleaseRule K M)
  | showBarrier (block : Bool)
  | showStore
  /-- Several steps that count as one; the answer is that of the last of them. -/
  | series (steps : List (Step K M))
  | race (holder waiter : Operation K M) (pauseIn : StoreMethod)
  deriving Inhabited

/-- What can be seen of a barrier from outside. -/
structure State (K : Type) where
  keys : List K
  stats : Stats
  groups : Nat
  messages : Nat

/-- A look at a group, compared with the last one in the same scenario. -/
structure GroupView (K M : Type) where
  group : Group K M
  /-- Whether the group was created at another time than the one seen last; `none` if none was seen before. -/
  createdChanged : Option Bool
  /-- Whether the last message came in at another time than when the group was seen last. -/
  updatedChanged : Option Bool

/-- What a step comes to. -/
inductive Reply (K M : Type) where
  /-- No step was made. -/
  | nothing
  | ok
  | answered (answer : Answer K M)
  | drained (messages : List M) (last : DrainEnd K)
  | keys (keys : List K)
  | state (state : State K)
  | count (groups messages capacity : Nat)
  | stored (outcome : Outcome StoreError Unit)
  | group (outcome : Outcome StoreError (Option (GroupView K M)))
  | calls (calls : List (Entry K M))
  | text (text : String)
  | raced (result : Barrier.RaceResult K M)

/-- Where a scenario stands. -/
structure Stand (K M : Type) where
  barrier : Barrier K M
  rule : ReleaseRule K M
  gate : Option (List K) := none
  faults : List (StoreMethod × String) := []
  clock : Instant := 0
  /-- The calls on the store that were not asked for yet, newest first. -/
  calls : List (Entry K M) := []
  /-- For each key whose group was seen: when it was created, and when its last message had come in. -/
  seen : List (K × Instant × Instant) := []

/-- A scenario at its start. -/
def Stand.start (b : Barrier K M) : Stand K M := { barrier := b, rule := b.rules.release }

namespace Stand

/-- The circumstances of a stretch of the present step. -/
def env (s : Stand K M) (stretch : Nat) : Surroundings where
  now := s.clock + stretch
  fault method := (s.faults.lookup method).map .fails

/-- What can be seen from outside. -/
def state (s : Stand K M) : State K :=
  ⟨s.barrier.pendingKeys, s.barrier.stats, s.barrier.store.groupCount, s.barrier.store.messages⟩

variable [DecidableEq K]

/-- Puts the rule behind the gate in force. -/
def rearm (s : Stand K M) : Stand K M :=
  let rule := match s.gate with
    | none => s.rule
    | some only => ReleaseRule.gated (fun k => only.contains k) s.rule
  { s with barrier := { s.barrier with rules := { s.barrier.rules with release := rule } } }

/-- Looks at a group and remembers it. -/
def view (s : Stand K M) (g : Group K M) : GroupView K M × Stand K M :=
  let before := s.seen.lookup g.key
  (⟨g, before.map fun p => p.1 ≠ g.createdAt, before.map fun p => p.2 ≠ g.updatedAt⟩,
    { s with seen := (g.key, g.createdAt, g.updatedAt) :: s.seen })

end Stand

variable [DecidableEq K] [BEq M]

/-- Makes a call on the store directly. The answer to a look at a group is compared with what was seen before. -/
def callStore (s : Stand K M) : Request K M → Reply K M × Stand K M
  | .group k =>
    let (outcome, b) := s.barrier.request (s.env 0) (.group k)
    let s := { s with barrier := b }
    match (outcome : Outcome StoreError (Option (Group K M))) with
    | .error f => (.group (.error f), s)
    | .ok none => (.group (.ok none), s)
    | .ok (some g) =>
      let (v, s) := s.view g
      (.group (.ok (some v)), s)
  | .add k m => stored (s.barrier.request (s.env 0) (.add k m))
  | .remove k m => stored (s.barrier.request (s.env 0) (.remove k m))
  | .mark k m => stored (s.barrier.request (s.env 0) (.mark k m))
  | .dropGroup k => stored (s.barrier.request (s.env 0) (.dropGroup k))
  | _ => (.ok, s)
where
  /-- The reply to a call without an answer of its own. -/
  stored (r : Outcome StoreError Unit × Barrier K M) : Reply K M × Stand K M :=
    (.stored r.1, { s with barrier := r.2 })

/-- Makes an operation. -/
def operate (s : Stand K M) : Operation K M → Reply K M × Stand K M
  | .accept m =>
    let (r, b) := s.barrier.accept (s.env 0) m
    (.answered (.accepted r), { s with barrier := b })
  | .pull order =>
    let (r, b) := s.barrier.pull (s.env 0) order
    (.answered (.pulled r), { s with barrier := b })

/-- Takes over the journal of the barrier: its calls are kept until they are asked for, its events are answered. -/
def takeJournal (s : Stand K M) : List (Event K M) × Stand K M :=
  (s.barrier.events, { s with calls := s.barrier.calls ++ s.calls, barrier := s.barrier.clearJournal })

mutual

/-- Makes a step. -/
def step (keyText : K → String) (s : Stand K M) : Step K M → Reply K M × Stand K M
  | .operate op => operate s op
  | .drain limit =>
    let (ms, last, b) := s.barrier.drain (List.replicate limit (s.env 0, WalkOrder.asListed))
    (.drained ms last, { s with barrier := b })
  | .keys => (.keys s.barrier.pendingKeys, s)
  | .state => (.state s.state, s)
  | .count =>
    let store := s.barrier.store
    let shared := { s.barrier.shared with journal := .counted :: s.barrier.shared.journal }
    (.count store.groupCount store.messages store.capacity, { s with barrier := { s.barrier with shared := shared } })
  | .store c => callStore s c
  | .fault method reason =>
    let others := s.faults.filter fun f => f.1 ≠ method
    (.ok, { s with faults := (reason.map (method, ·)).toList ++ others })
  | .calls => (.calls s.calls.reverse, { s with calls := [] })
  | .gate only => (.ok, { s with gate := only }.rearm)
  | .rule release => (.ok, { s with rule := release }.rearm)
  | .showBarrier block =>
    let v := s.barrier.layout keyText
    (.text (if block then v.blockText else v.line), s)
  | .showStore => (.text s.barrier.store.layout.line, s)
  | .series steps => stepAll keyText .nothing s steps
  | .race holder waiter pauseIn =>
    let (r, b) := s.barrier.race (fun i => s.env i) holder waiter pauseIn
    -- neither thread of a race is the thread of the scenario, whose events are answered
    (.raced r, { s with barrier := b.forgetEvents })

/-- Makes steps one after the other and answers what the last one came to; `last` if there are none. -/
def stepAll (keyText : K → String) (last : Reply K M) (s : Stand K M) : List (Step K M) → Reply K M × Stand K M
  | [] => (last, s)
  | x :: rest =>
    let (r, s) := step keyText { s with clock := s.clock + 4 } x
    stepAll keyText r s rest

end

/-- What a step came to, the state after it, and the events reported by the thread of the scenario. -/
structure Played (K M : Type) where
  reply : Reply K M
  state : State K
  events : List (Event K M)

/-- Plays steps one after the other. -/
def play (keyText : K → String) : List (Step K M) → Stand K M → List (Played K M) × Stand K M
  | [], s => ([], s)
  | x :: rest, s =>
    let (reply, s) := step keyText { s with clock := s.clock + 4 } x
    let (events, s) := takeJournal s
    let (after, last) := play keyText rest s
    (⟨reply, s.state, events⟩ :: after, last)

end Scenario

end CorrelationBarrier
