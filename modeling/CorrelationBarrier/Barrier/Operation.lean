import CorrelationBarrier.Barrier.Shared

/-!
# The operations of a barrier

* `Act.accept` — derives the key of a message and adds it to its group, under the token of the key;
* `Act.pull` — visits the keys one after the other, each under its token, and hands out at most one message.

Both are programs over a lock table and the shared data. A visit (`Act.visit`) asks the release rule about the group as it
is. A group that may release but has nothing unmarked is dropped together with its key, and the walk goes on.
-/

namespace CorrelationBarrier

/-- The rules of a barrier. -/
structure Rules (K M : Type) where
  correlate : Correlation K M
  release : ReleaseRule K M
  mode : ReleaseMode := .mark

/-- An order in which a pull visits the keys it finds in the table. -/
structure WalkOrder (K : Type) where
  arrange : List K → List K
  perm : ∀ ks, (arrange ks).Perm ks

/-- The order of the table. -/
def WalkOrder.asListed {K : Type} : WalkOrder K := ⟨id, fun _ => .refl _⟩

/-- What a visit to a key came to. -/
inductive Visit (M : Type) where
  /-- A message was handed out. -/
  | released (message : M)
  /-- The group may not release yet. -/
  | held
  /-- The group had nothing left and was dropped together with its key. -/
  | drained
  /-- There was no group. -/
  | stale
  deriving DecidableEq

/-- An operation of a barrier. -/
inductive Operation (K M : Type) where
  | accept (message : M)
  | pull (order : WalkOrder K)

/-- What an operation answers. -/
inductive Answer (K M : Type) where
  | accepted (outcome : Outcome (BarrierError K) Unit)
  | pulled (outcome : Outcome (BarrierError K) (Option M))

/-- A program over the table and the data of a barrier. -/
abbrev Act (K M α : Type) := Program K (Request.interface K M) α

namespace Act

variable {K M : Type}

/-- Asks the shared data. -/
def ask (c : Request K M) : Act K M c.Reply := Program.request (I := Request.interface K M) c

/-- Adds a message inside the section of its key. If the store refuses it and has no group for the key, a validated table
forgets the key again. -/
def intake (policy : TokenPolicy) (k : K) (m : M) : Act K M (Outcome StoreError Unit) := do
  match ← ask (.add k m) with
  | .ok () => return .ok ()
  | .error (.panic text) => return Outcome.panicked text
  | .error (.error e) =>
    if policy = .validated then
      match ← ask (.group k) with
      | .ok none => let _ ← Program.forgetKey
      | .error (.panic text) => return Outcome.panicked text
      | _ => pure ()
    return Outcome.failed e

/-- Buffers a message under its key. If no key can be derived, nothing is touched. -/
def accept (rules : Rules K M) (policy : TokenPolicy) (m : M) : Act K M (Outcome (BarrierError K) Unit) :=
  match rules.correlate m with
  | .error f => return .error (f.map .correlation)
  | .ok k => do
    match ← Program.within k (intake policy k m) with
    | .error f => return .error (f.map .store)
    | .ok () =>
      ask (.count .accepted)
      ask (.report (.accepted k m))
      return .ok ()

/-- Hands out a message inside the section of its key. -/
def handOut (mode : ReleaseMode) (k : K) (m : M) : Act K M (Outcome (BarrierError K) (Visit M)) := do
  let outcome ← match mode with
    | .remove => ask (.remove k m)
    | .mark => ask (.mark k m)
  match outcome with
  | .error f => return .error (f.map .store)
  | .ok () =>
    ask (.report (.released k m))
    return .ok (.released m)

/-- Drops a drained group inside the section of its key, and then the key. -/
def dropDrained (k : K) : Act K M (Outcome (BarrierError K) (Visit M)) := do
  match ← ask (.dropGroup k) with
  | .error f => return .error (f.map .store)
  | .ok () =>
    let _ ← Program.forgetKey
    ask (.report (.drained k))
    return .ok .drained

/-- Visits a key inside its section. Without a group, a validated table forgets the key; a tolerant one keeps it, for an
accepting thread may wait for this very token. -/
def visit (rules : Rules K M) (policy : TokenPolicy) (k : K) : Act K M (Outcome (BarrierError K) (Visit M)) := do
  match ← ask (.group k) with
  | .error f => return .error (f.map .store)
  | .ok none =>
    ask (.report (.staleKey k))
    if policy = .validated then
      let _ ← Program.forgetKey
    return .ok .stale
  | .ok (some g) =>
    let now ← ask .clock
    match rules.release g now with
    | .error f => return .error (f.map (.release k))
    | .ok false => return .ok .held
    | .ok true =>
      match g.unmarked with
      | m :: _ => handOut rules.mode k m
      | [] => dropDrained k

/-- Visits keys until one of them hands out a message. -/
def walk (rules : Rules K M) (policy : TokenPolicy) : List K → Act K M (Outcome (BarrierError K) (Option M))
  | [] => return .ok none
  | k :: rest => do
    match ← Program.within k (visit rules policy k) with
    | .error f => return .error f
    | .ok (.released m) =>
      ask (.count .released)
      return .ok (some m)
    | .ok .held => walk rules policy rest
    | .ok .drained =>
      ask (.count .groupsRemoved)
      walk rules policy rest
    | .ok .stale =>
      ask (.count .staleKeys)
      walk rules policy rest

/-- Hands out at most one message: of the first group on the way that may release and has an unmarked one. -/
def pull (rules : Rules K M) (policy : TokenPolicy) (order : WalkOrder K) :
    Act K M (Outcome (BarrierError K) (Option M)) := do
  let table ← Program.table
  walk rules policy (order.arrange table.keys)

/-- The program of an operation. -/
def ofOperation (rules : Rules K M) (policy : TokenPolicy) : Operation K M → Act K M (Answer K M)
  | .accept m => Answer.accepted <$> accept rules policy m
  | .pull order => Answer.pulled <$> pull rules policy order

end Act

end CorrelationBarrier
