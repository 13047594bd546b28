import CorrelationBarrier.Program

/-!
# Interleavings

A `Machine` is a lock table and shared data with any number of threads, each of which runs a program. It moves by one
atomic access of one thread: an access to the table, taking or letting go of a token, writing a retired flag, or one call
on the shared data. `Thread.step?` is the only place where a thread waits: a token that is held cannot be taken.

* `Machine.advance?` — one step of one thread, if it can move;
* `Machine.run` — a list of moves; a thread begins with a move of its own, so that threads may start at any time;
* `Machine.runThread` — one thread alone until it stops, for schedules that are laid out in phases.

A section is entered in three steps. The thread fetches the current token of the key (`fetched`), then takes it. If the
token was retired meanwhile and the policy is `validated`, it lets go of it (`rejected`) and fetches again.
-/

namespace CorrelationBarrier

/-- How far a thread is with the first action of its program. -/
inductive Stage where
  /-- The action has not begun. -/
  | ready
  /-- Entering a section, the thread has fetched the token and does not hold it. -/
  | fetched (token : TokenId)
  /-- Entering a section, the thread holds a retired token and is about to let go of it. -/
  | rejected (token : TokenId)
  /-- Forgetting a key, the thread has retired the token and is about to remove the entry. -/
  | retiring
  deriving DecidableEq

/-- A thread: what it still has to do, and its open sections from the innermost outwards. -/
structure Thread (K : Type) (I : Interface) (α : Type) where
  program : Program K I α
  stage : Stage := .ready
  sections : List (Held K) := []

/-- Threads over a lock table and shared data. -/
structure Machine (K : Type) (I : Interface) (σ α : Type) where
  table : LockTable K
  data : σ
  threads : List (Thread K I α) := []

variable {K : Type} {I : Interface} {σ ε α : Type}

namespace Thread

/-- The tokens that a thread holds. -/
def tokens (t : Thread K I α) : List TokenId :=
  match t.stage with
  | .rejected i => i :: t.sections.map (·.token)
  | _ => t.sections.map (·.token)

/-- The answer of a thread that has ended. -/
def answer? (t : Thread K I α) : Option α :=
  match t.program with
  | .done a => some a
  | _ => none

/-- The call that a thread makes with its next step. -/
def nextCall? (t : Thread K I α) : Option I.Call :=
  match t.program with
  | .call c _ => some c
  | _ => none

/-- Whether a thread is past the opening of its first section, or has ended. -/
def hasEntered (t : Thread K I α) : Bool := !t.sections.isEmpty || t.answer?.isSome

variable [DecidableEq K]

/-- One step of a thread, with the table and the data that it leaves. A thread that has ended makes no step, nor does one
that wants a token which is held. -/
def step? (service : Service I ε σ) (env : ε) (table : LockTable K) (data : σ) (t : Thread K I α) :
    Option (LockTable K × σ × Thread K I α) :=
  match t.stage, t.program with
  | .ready, .acquire k next =>
    let (i, table) := table.acquire k
    some (table, data, { t with program := next i })
  | .ready, .look next => some (table, data, { t with program := next table })
  | .ready, .enter k _ =>
    let (i, table) := table.acquire k
    some (table, data, { t with stage := .fetched i })
  | .fetched i, .enter k next =>
    if (table.token i).held then none
    else if table.rejects i then some (table.hold i, data, { t with stage := .rejected i })
    else some (table.hold i, data, { program := next, stage := .ready, sections := ⟨k, i⟩ :: t.sections })
  | .rejected i, .enter _ _ => some (table.release i, data, { t with stage := .ready })
  | .ready, .leave next =>
    match t.sections with
    | [] => some (table, data, { t with program := next })
    | h :: rest => some (table.release h.token, data, { t with program := next, sections := rest })
  | .ready, .forget depth next =>
    match t.sections[depth]? with
    | none => some (table, data, { t with program := next false })
    | some h => some (table.retire h.token, data, { t with stage := .retiring })
  | .retiring, .forget depth next =>
    match t.sections[depth]? with
    | none => none
    | some h =>
      let (b, table) := table.unlink h.key h.token
      some (table, data, { t with program := next b, stage := .ready })
  | .ready, .isCurrent depth next =>
    match t.sections[depth]? with
    | none => some (table, data, { t with program := next false })
    | some h => some (table, data, { t with program := next (!(table.token h.token).retired) })
  | .ready, .call c next =>
    let (r, data) := service env c data
    some (table, data, { t with program := next r })
  | _, _ => none

end Thread

/-- A move of the whole: a thread begins, or one that has begun makes a step under the given circumstances. -/
inductive Move (K : Type) (I : Interface) (ε α : Type) where
  | start (program : Program K I α)
  | advance (thread : Nat) (env : ε)

namespace Machine

variable [DecidableEq K]

/-- One step of one thread, if it can move. -/
def advance? (service : Service I ε σ) (env : ε) (i : Nat) (m : Machine K I σ α) : Option (Machine K I σ α) := do
  let t ← m.threads[i]?
  let (table, data, t) ← t.step? service env m.table m.data
  return { table := table, data := data, threads := m.threads.set i t }

/-- Begins a thread. -/
def start (p : Program K I α) (m : Machine K I σ α) : Machine K I σ α :=
  { m with threads := m.threads ++ [{ program := p }] }

/-- Makes a move; a thread that cannot move leaves everything as it is. -/
def move (service : Service I ε σ) (m : Machine K I σ α) : Move K I ε α → Machine K I σ α
  | .start p => m.start p
  | .advance i env => (m.advance? service env i).getD m

/-- Makes moves one after the other. -/
def run (service : Service I ε σ) (moves : List (Move K I ε α)) (m : Machine K I σ α) : Machine K I σ α :=
  moves.foldl (move service) m

/-- Whether a property holds of a thread. -/
def threadIs (i : Nat) (p : Thread K I α → Bool) (m : Machine K I σ α) : Bool := m.threads[i]?.any p

/-- Runs one thread alone, for at most `fuel` steps, until it cannot move or `stop` holds of it. -/
def runThread (service : Service I ε σ) (env : ε) (i : Nat) (stop : Thread K I α → Bool) :
    (fuel : Nat) → Machine K I σ α → Machine K I σ α
  | 0, m => m
  | fuel + 1, m =>
    if m.threadIs i stop then m
    else match m.advance? service env i with
      | none => m
      | some m => m.runThread service env i stop fuel

/-- The answer of a thread that has ended. -/
def answer? (i : Nat) (m : Machine K I σ α) : Option α := m.threads[i]?.bind (·.answer?)

end Machine

end CorrelationBarrier
