import CorrelationBarrier.LockTable

/-!
# Programs over a lock table

A `Program K I α` is what one thread does: atomic accesses to the lock table, sections under the token of a key, and calls
(`I`) on the data that all threads share, up to an answer in `α`. It is a tree: after each action it goes on as the reply
to that action says.

* `Program.within k body` — runs `body` while the token of `k` is held;
* `Program.run` — the program on its own, with nobody else running: every action finds the table as the last one left it,
  and a section is entered at once;
* `run_bind` — a program that goes on with another one runs them one after the other.

`Machine` runs the same programs in any interleaving.
-/

namespace CorrelationBarrier

/-- The calls that programs make on shared data, each with the type of its reply. -/
structure Interface where
  Call : Type
  Reply : Call → Type

/-- How shared data answers a call under given circumstances. Each call is one atomic step. -/
abbrev Service (I : Interface) (ε σ : Type) := ε → (c : I.Call) → σ → I.Reply c × σ

/-- What a thread does, as a tree of atomic actions. Sections nest; `forget` and `isCurrent` name an open section by its
depth, which is the number of open sections inside of it, and reply `false` where there is none. -/
inductive Program (K : Type) (I : Interface) (α : Type) where
  /-- Ends with an answer. -/
  | done (a : α)
  /-- Fetches the token of a key without holding it. -/
  | acquire (k : K) (next : TokenId → Program K I α)
  /-- Looks at the table. -/
  | look (next : LockTable K → Program K I α)
  /-- Waits for the token of a key and opens a section under it. -/
  | enter (k : K) (next : Program K I α)
  /-- Closes the innermost section and lets go of its token. -/
  | leave (next : Program K I α)
  /-- Retires the token of an open section and removes its entry; the reply says whether it was the entry. -/
  | forget (depth : Nat) (next : Bool → Program K I α)
  /-- Asks whether the token of an open section is not retired. -/
  | isCurrent (depth : Nat) (next : Bool → Program K I α)
  /-- Makes a call on the shared data. -/
  | call (c : I.Call) (next : I.Reply c → Program K I α)

namespace Program

variable {K : Type} {I : Interface} {α β γ : Type}

/-- The program that goes on with `f` where `p` ends. -/
def bind : Program K I α → (α → Program K I β) → Program K I β
  | .done a, f => f a
  | .acquire k next, f => .acquire k fun i => (next i).bind f
  | .look next, f => .look fun t => (next t).bind f
  | .enter k next, f => .enter k (next.bind f)
  | .leave next, f => .leave (next.bind f)
  | .forget depth next, f => .forget depth fun b => (next b).bind f
  | .isCurrent depth next, f => .isCurrent depth fun b => (next b).bind f
  | .call c next, f => .call c fun r => (next r).bind f

instance : Monad (Program K I) where
  pure := .done
  bind := bind

theorem bind_eq (p : Program K I α) (f : α → Program K I β) : p >>= f = p.bind f := rfl

theorem bind_assoc (p : Program K I α) (f : α → Program K I β) (g : β → Program K I γ) :
    (p.bind f).bind g = p.bind fun a => (f a).bind g := by
  induction p with
  | done => rfl
  | acquire k _ ih => exact congrArg (Program.acquire k) (funext ih)
  | look _ ih => exact congrArg Program.look (funext ih)
  | enter k _ ih => exact congrArg (Program.enter k) ih
  | leave _ ih => exact congrArg Program.leave ih
  | forget depth _ ih => exact congrArg (Program.forget depth) (funext ih)
  | isCurrent depth _ ih => exact congrArg (Program.isCurrent depth) (funext ih)
  | call c _ ih => exact congrArg (Program.call c) (funext ih)

/-! ## the actions as programs -/

/-- Fetches the token of a key. -/
def fetch (k : K) : Program K I TokenId := .acquire k .done

/-- Looks at the table. -/
def table : Program K I (LockTable K) := .look .done

/-- Forgets the key of the innermost section. -/
def forgetKey : Program K I Bool := .forget 0 .done

/-- Asks whether the token of the innermost section is current. -/
def current : Program K I Bool := .isCurrent 0 .done

/-- Makes a call and takes its reply. -/
def request (c : I.Call) : Program K I (I.Reply c) := .call c .done

/-- Runs a program while the token of a key is held. It ends, whatever its answer, by letting go of the token. -/
def within (k : K) (body : Program K I α) : Program K I α :=
  .enter k (body.bind fun a => .leave (.done a))

end Program

/-- An open section: its key, and the token it holds. -/
structure Held (K : Type) where
  key : K
  token : TokenId

/-- A thread on its own: the table, its open sections from the innermost outwards, and the shared data. -/
structure Solo (K σ : Type) where
  table : LockTable K
  sections : List (Held K) := []
  data : σ

namespace Program

variable {K : Type} [DecidableEq K] {I : Interface} {α β ε σ : Type}

/-- Runs a program on its own, under unchanging circumstances. -/
def run (service : Service I ε σ) (env : ε) : Program K I α → Solo K σ → α × Solo K σ
  | .done a, s => (a, s)
  | .acquire k next, s =>
    let (i, t) := s.table.acquire k
    (next i).run service env { s with table := t }
  | .look next, s => (next s.table).run service env s
  | .enter k next, s =>
    let (i, t) := s.table.acquire k
    next.run service env { s with table := t.hold i, sections := ⟨k, i⟩ :: s.sections }
  | .leave next, s =>
    match s.sections with
    | [] => next.run service env s
    | h :: rest => next.run service env { s with table := s.table.release h.token, sections := rest }
  | .forget depth next, s =>
    match s.sections[depth]? with
    | none => (next false).run service env s
    | some h =>
      let (b, t) := (s.table.retire h.token).unlink h.key h.token
      (next b).run service env { s with table := t }
  | .isCurrent depth next, s =>
    match s.sections[depth]? with
    | none => (next false).run service env s
    | some h => (next (!(s.table.token h.token).retired)).run service env s
  | .call c next, s =>
    let (r, d) := service env c s.data
    (next r).run service env { s with data := d }

theorem run_bind (service : Service I ε σ) (env : ε) (p : Program K I α) (f : α → Program K I β) (s : Solo K σ) :
    (p.bind f).run service env s = (f (p.run service env s).1).run service env (p.run service env s).2 := by
  induction p generalizing s with
  | done => rfl
  | acquire _ _ ih => exact ih _ _
  | look _ ih => exact ih _ _
  | enter _ _ ih => exact ih _
  | call _ _ ih => exact ih _ _
  | leave _ ih => simp only [bind, run]; split <;> exact ih _
  | forget _ _ ih => simp only [bind, run]; split <;> exact ih _ _
  | isCurrent _ _ ih => simp only [bind, run]; split <;> exact ih _ _

end Program

end CorrelationBarrier
