import CorrelationBarrier.Machine
import CorrelationBarrier.Text.Quoted

/-!
# Scripts on a bare lock table

A script (`Step`) exercises a lock table without any store behind it: it fetches tokens, opens sections inside each other,
forgets keys, and panics. A panic ends the innermost section around it and is part of the answer of that section.

* `Step.act` — a step as a program;
* `Scene.play` — a step run alone, or a section with other threads waiting behind it (`contend`);
* `play` — a whole script.

Tokens are shown by numbers in the order in which the script first fetched them (`register`).
-/

namespace CorrelationBarrier.LockTable

/-- A step of a script. The last group concerns the innermost section around it. -/
inductive Step where
  | acquire (key : String)
  | keys
  | size
  | isEmpty
  | policy
  | showTable
  | within (key : String) (body : List Step)
  | panic (text : String)
  | forget
  | isCurrent
  | key
  | showSection
  deriving Inhabited

/-- What a step answers. -/
inductive Reply where
  | token (number : Nat)
  | keys (keys : List String)
  | number (n : Nat)
  | flag (b : Bool)
  | text (s : String)
  /-- The replies of a section, and the panic that cut it short, if one did. -/
  | body (replies : List Reply) (panic : Option String)

/-- The replies of some steps, and the panic that cut them short, if one did. -/
structure Report where
  replies : List Reply := []
  panic : Option String := none

/-- The calls of a script: the number of a token. -/
def register : Interface := ⟨TokenId, fun _ => Nat⟩

/-- The number of a token among those seen before, in order of first sight; a new one is put at the end. -/
def number (i : TokenId) (seen : List TokenId) : Nat × List TokenId :=
  if seen.contains i then (seen.idxOf i, seen) else (seen.length, seen ++ [i])

/-- The tokens seen so far as a service. -/
def numbering : Service register Unit (List TokenId) := fun _ i seen => number i seen

/-- A section as a printed value. -/
def sectionLayout (t : LockTable String) (k : String) (isCurrent : Bool) : Layout :=
  .record "KeySection"
    [("table", t.layout Text.quote), ("key", .word (Text.quote k)), ("token", tokenLayout { held := true }),
     ("state", .record "TokenState" [("retired", .word (if isCurrent then "false" else "true"))])]

namespace Step

mutual

/-- A step as a program, inside a section of the key `here` or outside all sections. It answers a panic as an error. -/
def act (here : Option String) : Step → Program String register (Except String Reply)
  | .acquire k => do
    let i ← Program.fetch k
    let n ← Program.request (I := register) i
    return .ok (.token n)
  | .keys => do
    let t ← Program.table
    return .ok (.keys t.keys)
  | .size => do
    let t ← Program.table
    return .ok (.number t.size)
  | .isEmpty => do
    let t ← Program.table
    return .ok (.flag t.isEmpty)
  | .policy => do
    let t ← Program.table
    return .ok (.text t.policy.name)
  | .showTable => do
    let t ← Program.table
    return .ok (.text (t.layout Text.quote).line)
  | .within k body => do
    let r ← Program.within k (acts (some k) body)
    return .ok (.body r.replies r.panic)
  | .panic text => return .error text
  | .forget => do
    let b ← Program.forgetKey
    return .ok (.flag b)
  | .isCurrent => do
    let b ← Program.current
    return .ok (.flag b)
  | .key => return .ok (.text (here.getD ""))
  | .showSection => do
    let t ← Program.table
    let b ← Program.current
    return .ok (.text (sectionLayout t (here.getD "") b).line)

/-- Steps one after the other, up to a panic. -/
def acts (here : Option String) : List Step → Program String register Report
  | [] => return {}
  | s :: rest => do
    match ← act here s with
    | .error text => return { panic := some text }
    | .ok r =>
      let after ← acts here rest
      return { after with replies := r :: after.replies }

end

mutual

/-- A bound on the number of actions of a step, waiting left aside. -/
def weight : Step → Nat
  | .within _ body => 12 + weights body
  | _ => 4

/-- A bound on the number of actions of some steps. -/
def weights : List Step → Nat
  | [] => 1
  | s :: rest => s.weight + weights rest

end

end Step

/-- A scene of a script. -/
inductive Scene where
  /-- One thread makes a step. -/
  | alone (step : Step)
  /-- One thread opens a section. While it is open, `waiters` threads come up for the same key and fetch the token. Then
  the section runs to its end, and the waiting threads follow one by one. -/
  | contend (key : String) (holder : List Step) (waiters : Nat) (waiter : List Step)

/-- What a scene comes to. -/
inductive SceneReply where
  | step (reply : Except String Reply)
  | contended (holder : Option Report) (waiters : List (Option Report))

/-- Where a script stands: the table, and the tokens seen so far. -/
structure Stand where
  table : LockTable String
  seen : List TokenId := []

/-- The threads of a contended section. -/
abbrev Contest := Machine String register (List TokenId) Report

/-- Runs a contended section: the holder up to the inside of its section, the waiters until they wait, the holder to its
end, and then the waiters. -/
def contest (key : String) (holder : List Step) (waiters : Nat) (waiter : List Step) (s : Stand) : Contest :=
  let body (steps : List Step) := Program.within key (Step.acts (some key) steps)
  let fuel := 20 + Step.weights holder + Step.weights waiter
  let others := (List.range waiters).map (· + 1)
  let never (_ : Thread String register Report) : Bool := false
  let toEnd (m : Contest) (i : Nat) : Contest := m.runThread numbering () i never fuel
  let m : Contest := { table := s.table, data := s.seen }
  let m := m.start (body holder)
  let m := others.foldl (fun m _ => m.start (body waiter)) m
  let m := m.runThread numbering () 0 Thread.hasEntered fuel
  let m := others.foldl toEnd m
  let m := toEnd m 0
  others.foldl toEnd m

/-- Plays a scene. -/
def Scene.play (s : Stand) : Scene → SceneReply × Stand
  | .alone step =>
    let (r, solo) := (step.act none).run numbering () { table := s.table, data := s.seen }
    (.step r, { table := solo.table, seen := solo.data })
  | .contend key holder waiters waiter =>
    let m := contest key holder waiters waiter s
    (.contended (m.answer? 0) ((List.range waiters).map fun i => m.answer? (i + 1)),
      { table := m.table, seen := m.data })

/-- Plays scenes one after the other, up to a panic outside all sections. -/
def play : List Scene → Stand → List SceneReply × Option String × Stand
  | [], s => ([], none, s)
  | scene :: rest, s =>
    match scene.play s with
    | (.step (.error text), s) => ([], some text, s)
    | (r, s) =>
      let (rs, panic, s) := play rest s
      (r :: rs, panic, s)

end CorrelationBarrier.LockTable
