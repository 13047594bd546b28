import CorrelationBarrier.Barrier.Operation

/-!
# The barrier

A `Barrier K M` holds messages back per key until its release rule lets their group go. `accept` and `pull` are the two
operations, run with nobody else around; `drain` pulls until nothing comes. `Barrier.Threads` runs the same operations in
any interleaving.
-/

namespace CorrelationBarrier

/-- A barrier: its rules, its lock table, and what its threads share. -/
structure Barrier (K M : Type) where
  rules : Rules K M
  table : LockTable K
  shared : Shared K M

/-- How a series of pulls ended. -/
inductive DrainEnd (K : Type) where
  /-- Nothing could be released any more. -/
  | empty
  /-- The allowed number of pulls was made. -/
  | limit
  /-- A pull failed. -/
  | failed (failure : Failure (BarrierError K))
  deriving DecidableEq

namespace Barrier

variable {K M : Type}

/-- A barrier without messages over a store with the given capacity, zero meaning no bound. -/
def new (rules : Rules K M) (policy : TokenPolicy := .validated) (capacity : Nat := 0) : Barrier K M where
  rules := rules
  table := LockTable.new policy
  shared := { store := GroupStore.empty capacity }

/-- The store of a barrier. -/
def store (b : Barrier K M) : GroupStore K M := b.shared.store

/-- The counters of a barrier. -/
def stats (b : Barrier K M) : Stats := b.shared.stats

/-- The keys that a barrier keeps track of. -/
def pendingKeys (b : Barrier K M) : List K := b.table.keys

/-- The events in the journal, oldest first. -/
def events (b : Barrier K M) : List (Event K M) :=
  (b.shared.journal.filterMap fun | .reported e => some e | _ => none).reverse

/-- The calls on the store in the journal, newest first. -/
def calls (b : Barrier K M) : List (Entry K M) := b.shared.journal.filter fun | .reported _ => false | _ => true

/-- The barrier with an empty journal. -/
def clearJournal (b : Barrier K M) : Barrier K M := { b with shared := { b.shared with journal := [] } }

/-- The barrier without the events in its journal. -/
def forgetEvents (b : Barrier K M) : Barrier K M := { b with shared := { b.shared with journal := b.calls } }

/-- A barrier as a printed value. -/
def layout (keyText : K → String) (b : Barrier K M) : Layout :=
  .openRecord "Barrier"
    [("store", b.store.layout),
     ("locks", b.table.layout keyText),
     ("release_mode", .word b.rules.mode.name),
     ("counters", .record "Counters"
       [("admitted", .word (toString b.stats.accepted)), ("released", .word (toString b.stats.released)),
        ("groups_removed", .word (toString b.stats.groupsRemoved)),
        ("stale_keys", .word (toString b.stats.staleKeys))])]

variable [DecidableEq K] [BEq M]

/-- Runs a program on the barrier with nobody else around. -/
def runAct {α : Type} (env : Surroundings) (p : Act K M α) (b : Barrier K M) : α × Barrier K M :=
  let (a, s) := p.run Shared.service env { table := b.table, data := b.shared }
  (a, { b with table := s.table, shared := s.data })

/-- Buffers a message. -/
def accept (env : Surroundings) (m : M) (b : Barrier K M) : Outcome (BarrierError K) Unit × Barrier K M :=
  b.runAct env (Act.accept b.rules b.table.policy m)

/-- Hands out at most one message. -/
def pull (env : Surroundings) (order : WalkOrder K) (b : Barrier K M) :
    Outcome (BarrierError K) (Option M) × Barrier K M :=
  b.runAct env (Act.pull b.rules b.table.policy order)

/-- Pulls until nothing comes or a pull fails, at most once for each of the given circumstances and orders. Answers the
messages in the order in which they came. -/
def drain : List (Surroundings × WalkOrder K) → Barrier K M → List M × DrainEnd K × Barrier K M
  | [], b => ([], .limit, b)
  | (env, order) :: rest, b =>
    match b.pull env order with
    | (.error f, b) => ([], .failed f, b)
    | (.ok none, b) => ([], .empty, b)
    | (.ok (some m), b) =>
      let (ms, last, b) := b.drain rest
      (m :: ms, last, b)

/-- Makes a call on the store directly, without the token of the key. -/
def request (env : Surroundings) (c : Request K M) (b : Barrier K M) : c.Reply × Barrier K M :=
  let (r, shared) := b.shared.perform env c
  (r, { b with shared := shared })

end Barrier

end CorrelationBarrier
