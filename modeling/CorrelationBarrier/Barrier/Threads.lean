import CorrelationBarrier.Barrier.Basic
import CorrelationBarrier.Machine

/-!
# Many threads on one barrier

`Barrier.Threads` is the machine of a barrier: every thread runs one operation, and threads may start at any time, so that a
thread of the outside world which makes several calls is a series of threads here.

* `Barrier.race` — one thread is stopped inside a call on the store while another one comes up behind it;
* `Barrier.Threads.roundRobin` — all threads step in turn.
-/

namespace CorrelationBarrier

namespace Barrier

variable {K M : Type}

/-- The machine of a barrier. -/
abbrev Threads (K M : Type) := Machine K (Request.interface K M) (Shared K M) (Answer K M)

/-- The barrier as a machine without threads. -/
def toThreads (b : Barrier K M) : Threads K M := { table := b.table, data := b.shared }

/-- The barrier that a machine leaves behind. -/
def ofThreads (rules : Rules K M) (m : Threads K M) : Barrier K M := ⟨rules, m.table, m.data⟩

/-- The program of an operation on this barrier. -/
def actOf (b : Barrier K M) (op : Operation K M) : Act K M (Answer K M) := Act.ofOperation b.rules b.table.policy op

/-- More steps than an operation on the table can take alone: at most eleven for each key, and twenty besides. -/
def stepLimit (m : Threads K M) : Nat := 20 + 20 * (m.table.size + 2)

/-- Whether a thread makes a call on the store by the given method with its next step. -/
def callsNext (method : StoreMethod) (t : Thread K (Request.interface K M) (Answer K M)) : Bool :=
  match t.stage, t.nextCall? with
  | .ready, some (c : Request K M) => c.method?.map Prod.fst = some method
  | _, _ => false

/-- What came of a race. -/
structure RaceResult (K M : Type) where
  /-- Whether the holder was stopped inside the given method. -/
  paused : Bool
  holder : Option (Answer K M)
  waiter : Option (Answer K M)

variable [DecidableEq K] [BEq M]

/-- Runs one thread alone until it ends, waits, or `stop` holds of it. -/
def Threads.runThread (env : Surroundings) (i : Nat) (stop : Thread K (Request.interface K M) (Answer K M) → Bool)
    (m : Threads K M) : Threads K M :=
  Machine.runThread Shared.service env i stop (stepLimit m) m

/-- Runs the holder up to its first call by the given method. The call is noted, and before it takes effect the waiter
runs until it waits or ends. Then the holder runs to its end, and after it the waiter. If the holder never makes such a
call, the waiter runs after it. The four stretches take place under the given circumstances, one after the other. -/
def race (envs : Fin 4 → Surroundings) (holder waiter : Operation K M) (pauseIn : StoreMethod) (b : Barrier K M) :
    RaceResult K M × Barrier K M :=
  let never (_ : Thread K (Request.interface K M) (Answer K M)) : Bool := false
  let m := (b.toThreads.start (b.actOf holder)).start (b.actOf waiter)
  let m := Threads.runThread (envs 0) 0 (callsNext pauseIn) m
  let pending := (m.threads[0]?.bind (·.nextCall?)).bind fun (c : Request K M) => c.method?
  let (paused, m) : Bool × Threads K M :=
    match m.threadIs 0 (callsNext pauseIn), pending with
    | true, some (method, k) =>
      let noted := Entry.called method k :: m.data.journal
      let m := Threads.runThread (envs 1) 1 never { m with data := { m.data with journal := noted } }
      -- the call was noted when the holder was stopped, so its step leaves the journal alone
      match Machine.advance? Shared.service (envs 2) 0 m with
      | some m' => (true, { m' with data := { m'.data with journal := m.data.journal } })
      | none => (true, m)
    | _, _ => (false, m)
  let m := Threads.runThread (envs 2) 0 never m
  let m := Threads.runThread (envs 3) 1 never m
  (⟨paused, m.answer? 0, m.answer? 1⟩, ofThreads b.rules m)

/-- Lets every thread make one step, if it can. -/
def Threads.round (env : Surroundings) (m : Threads K M) : Threads K M :=
  (List.range m.threads.length).foldl (fun m i => (Machine.advance? Shared.service env i m).getD m) m

/-- Lets all threads step in turn, for at most `fuel` rounds, until all have ended. -/
def Threads.roundRobin (env : Surroundings) : (fuel : Nat) → Threads K M → Threads K M
  | 0, m => m
  | fuel + 1, m =>
    if m.threads.all fun t => t.answer?.isSome then m else Threads.roundRobin env fuel (m.round env)

end Barrier

end CorrelationBarrier
