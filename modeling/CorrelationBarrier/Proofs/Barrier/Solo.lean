import CorrelationBarrier.Barrier.Basic
import CorrelationBarrier.Proofs.Barrier.Calls
import CorrelationBarrier.Proofs.Tokens

/-!
# Operations alone

What an operation comes to with nobody else around, under circumstances that may change from call to call.

* `LockTable.touch`, `LockTable.expel` — the table after a section that keeps its key, and after one that forgets it;
* `Barrier.runInTurn` — a program run alone, each call under circumstances of its own; under unchanging ones this is
  `runAct`, by `runInTurn_const`;
* `Act.stop` — a visit to a key with its count; a walk is one stop after the other, by `Act.walk_cons`;
* `Barrier.Visits` — what a visit to a key may come to, one rule for each way, with all that it changes;
* `Barrier.Walks` — the same for a walk along the keys; `walks_pullInTurn` shows that every pull is such a walk.
-/

namespace CorrelationBarrier

variable {K M : Type}

theorem WalkOrder.mem_arrange (order : WalkOrder K) {ks : List K} {k : K} : k ∈ order.arrange ks ↔ k ∈ ks :=
  (order.perm ks).mem_iff

theorem WalkOrder.nodup_arrange (order : WalkOrder K) {ks : List K} (nodup : ks.Nodup) : (order.arrange ks).Nodup :=
  (order.perm ks).nodup_iff.2 nodup

/-! ## the table after a section -/

namespace LockTable

variable [DecidableEq K]

/-- The table after a section of `k` that keeps the key. -/
def touch (t : LockTable K) (k : K) : LockTable K :=
  ((t.acquire k).2.hold (t.acquire k).1).release (t.acquire k).1

/-- The table after a section of `k` that forgets the key. -/
def expel (t : LockTable K) (k : K) : LockTable K :=
  ((((t.acquire k).2.hold (t.acquire k).1).retire (t.acquire k).1).unlink k (t.acquire k).1).2.release (t.acquire k).1

variable {t : LockTable K} {k : K}

theorem mem_keys_iff : k ∈ t.keys ↔ (t.current k).isSome := Assoc.get?_isSome.symm

theorem current_eq_none_iff : t.current k = none ↔ k ∉ t.keys := Assoc.get?_eq_none

omit [DecidableEq K] in
theorem keys_nodup (t : LockTable K) : t.keys.Nodup := t.entries.keys_nodup

theorem acquire_of_current {i : TokenId} (h : t.current k = some i) : t.acquire k = (i, t) := by rw [acquire, h]

theorem acquire_of_mem (h : k ∈ t.keys) : (t.acquire k).2 = t := by
  obtain ⟨i, hi⟩ := Option.isSome_iff_exists.1 (mem_keys_iff.1 h)
  rw [acquire_of_current hi]

theorem acquire_of_not_mem (h : k ∉ t.keys) : (t.acquire k).1 = t.tokens.length := by
  rw [acquire, current_eq_none_iff.2 h]

@[simp] theorem policy_touch (t : LockTable K) (k : K) : (t.touch k).policy = t.policy := (evolves_acquire t k).policy

@[simp] theorem policy_expel (t : LockTable K) (k : K) : (t.expel k).policy = t.policy :=
  (evolves_unlink _ k _).policy.trans (evolves_acquire t k).policy

theorem entries_touch (h : k ∈ t.keys) : (t.touch k).entries = t.entries := by
  show (t.acquire k).2.entries = t.entries
  rw [acquire_of_mem h]

/-- A section that forgets its key leaves no entry of it, whether there was one or not. -/
theorem entries_expel (t : LockTable K) (k : K) : (t.expel k).entries = t.entries.erase k := by
  have acquired : (t.acquire k).2.entries.erase k = t.entries.erase k := by
    unfold acquire
    split
    · rfl
    · exact Assoc.erase_set ..
  have entry : ((t.acquire k).2.hold (t.acquire k).1 |>.retire (t.acquire k).1).current k = some (t.acquire k).1 :=
    current_acquire t k
  show (unlink _ k (t.acquire k).1).2.entries = _
  rw [unlink, if_pos entry]
  exact acquired

theorem current_touch (t : LockTable K) (k : K) : (t.touch k).current k = some (t.acquire k).1 := current_acquire t k

theorem current_touch_of_ne {j : K} (h : k ≠ j) : (t.touch k).current j = t.current j := current_acquire_of_ne h

theorem current_touch_of_mem (h : k ∈ t.keys) (j : K) : (t.touch k).current j = t.current j :=
  congrArg (·.get? j) (entries_touch h)

theorem current_expel (t : LockTable K) (k j : K) : (t.expel k).current j = if k = j then none else t.current j :=
  (congrArg (·.get? j) (entries_expel t k)).trans (Assoc.get?_erase ..)

theorem keys_touch (h : k ∈ t.keys) : (t.touch k).keys = t.keys := congrArg Assoc.keys (entries_touch h)

theorem keys_expel (t : LockTable K) (k : K) : (t.expel k).keys = t.keys.filter fun j => !decide (j = k) :=
  (congrArg Assoc.keys (entries_expel t k)).trans (Assoc.keys_erase ..)

theorem mem_keys_touch {j : K} : j ∈ (t.touch k).keys ↔ k = j ∨ j ∈ t.keys := by
  by_cases hj : k = j
  · subst hj
    simp [mem_keys_iff, current_touch]
  · simp [mem_keys_iff, current_touch_of_ne hj, hj]

theorem mem_keys_expel {j : K} : j ∈ (t.expel k).keys ↔ k ≠ j ∧ j ∈ t.keys := by
  by_cases hj : k = j <;> simp [mem_keys_iff, current_expel, hj]

theorem token_touch (t : LockTable K) (k : K) (i : TokenId) :
    (t.touch k).token i = if (t.acquire k).1 = i then { t.token i with held := false } else t.token i := by
  rw [touch, token_release]
  split
  · have retired : (((t.acquire k).2.hold (t.acquire k).1).token i).retired = (t.token i).retired := by simp
    exact congrArg (Token.mk · false) retired
  · rename_i other
    rw [token_hold_of_ne other, token_acquire]

theorem token_expel_of_ne {i : TokenId} (h : (t.acquire k).1 ≠ i) : (t.expel k).token i = t.token i := by
  rw [expel, token_release, if_neg h, token_unlink, token_retire_of_ne h, token_hold_of_ne h, token_acquire]

theorem retired_touch (t : LockTable K) (k : K) (i : TokenId) :
    ((t.touch k).token i).retired = (t.token i).retired := by
  rw [token_touch]
  split <;> rfl

/-- A section that forgets its key retires the token that it had, and no other. -/
theorem retired_expel {i : TokenId} (h : ((t.expel k).token i).retired = true) :
    (t.token i).retired = true ∨ (t.acquire k).1 = i := by
  by_cases own : (t.acquire k).1 = i
  · exact .inr own
  · rw [token_expel_of_ne own] at h
    exact .inl h

theorem length_touch (h : k ∈ t.keys) : (t.touch k).tokens.length = t.tokens.length := by
  rw [touch, length_release, length_hold, acquire_of_mem h]

theorem length_expel (h : k ∈ t.keys) : (t.expel k).tokens.length = t.tokens.length := by
  rw [expel, length_release, length_unlink, length_retire, length_hold, acquire_of_mem h]

/-- After a section no token is held that was not held before. -/
theorem held_touch {i : TokenId} (h : ((t.touch k).token i).held = true) : (t.token i).held = true := by
  rw [token_touch] at h
  split at h
  · cases h
  · exact h

theorem held_expel {i : TokenId} (h : ((t.expel k).token i).held = true) : (t.token i).held = true := by
  by_cases own : (t.acquire k).1 = i
  · rw [expel, token_release, if_pos own] at h
    cases h
  · rwa [token_expel_of_ne own] at h

end LockTable

variable [DecidableEq K] [BEq M]

/-! ## circumstances that change from call to call -/

namespace Shared

/-- The shared data as a service whose calls are numbered: the `n`-th call finds the `n`-th circumstances. -/
def inTurn : Service (Request.interface K M) (Nat → Surroundings) (Nat × Shared K M) := fun envs c d =>
  ((d.2.perform (envs d.1) c).1, d.1 + 1, (d.2.perform (envs d.1) c).2)

/-- The shared data once a call on the store is noted. -/
def noted (s : Shared K M) (method : StoreMethod) (k : K) : Shared K M :=
  { s with journal := .called method k :: s.journal }

/-- The shared data once an event is reported. -/
def told (s : Shared K M) (event : Event K M) : Shared K M := { s with journal := .reported event :: s.journal }

variable {α : Type} {env : Surroundings} {method : StoreMethod} {k : K} {s : Shared K M}
  {effect : GroupStore K M → Except StoreError (α × GroupStore K M)}

omit [DecidableEq K] [BEq M]

@[simp] theorem journal_noted (s : Shared K M) (method : StoreMethod) (k : K) :
    (s.noted method k).journal = .called method k :: s.journal := rfl

@[simp] theorem journal_told (s : Shared K M) (event : Event K M) :
    (s.told event).journal = .reported event :: s.journal := rfl

theorem onStore_of_fault {fault : Fault} (h : env.fault method = some fault) :
    s.onStore env method k effect = (.error fault.failure, s.noted method k) := by
  unfold onStore
  rw [h]
  rfl

theorem onStore_of_error {e : StoreError} (quiet : env.fault method = none) (h : effect s.store = .error e) :
    s.onStore env method k effect = (Outcome.failed e, s.noted method k) := by
  unfold onStore
  simp only [quiet, h]
  rfl

theorem onStore_of_ok {a : α} {store : GroupStore K M} (quiet : env.fault method = none)
    (h : effect s.store = .ok (a, store)) :
    s.onStore env method k effect = (.ok a, { s.noted method k with store := store }) := by
  unfold onStore
  simp only [quiet, h]
  rfl

variable [DecidableEq K] [BEq M]

theorem read_of_fault {fault : Fault} (h : env.fault .group = some fault) :
    s.perform env (.group k) = (.error fault.failure, s.noted .group k) := by
  rw [perform, onStore_of_fault h]
  rfl

theorem read_of_no_fault (h : env.fault .group = none) :
    s.perform env (.group k) = (.ok (s.store.group k), s.noted .group k) := by
  rw [perform, onStore_of_ok h rfl]
  rfl

end Shared

namespace Program

variable {α β : Type}

theorem run_ask {envs : Nat → Surroundings} {c : Request K M} {n : Nat} {d d' : Shared K M} {r : c.Reply}
    (h : d.perform (envs n) c = (r, d')) (f : c.Reply → Act K M β) (t : LockTable K) (ss : List (Held K)) :
    (Act.ask c >>= f).run Shared.inTurn envs ⟨t, ss, (n, d)⟩ = (f r).run Shared.inTurn envs ⟨t, ss, (n + 1, d')⟩ := by
  show (f (d.perform (envs n) c).1).run Shared.inTurn envs ⟨t, ss, (n + 1, (d.perform (envs n) c).2)⟩ = _
  rw [h]

variable {I : Interface} {ε σ : Type} {service : Service I ε σ} {env : ε}

omit [BEq M] in
/-- A section opens under the token of its key, and lets go of it in the end. -/
theorem run_section {k : K} {body : Program K I α} {t t' : LockTable K} {ss : List (Held K)} {d d' : σ} {a : α}
    (h : body.run service env ⟨(t.acquire k).2.hold (t.acquire k).1, ⟨k, (t.acquire k).1⟩ :: ss, d⟩ =
      (a, ⟨t', ⟨k, (t.acquire k).1⟩ :: ss, d'⟩)) :
    (within k body).run service env ⟨t, ss, d⟩ = (a, ⟨t'.release (t.acquire k).1, ss, d'⟩) := by
  show (body.bind fun a => .leave (.done a)).run service env
    ⟨(t.acquire k).2.hold (t.acquire k).1, ⟨k, (t.acquire k).1⟩ :: ss, d⟩ = _
  rw [run_bind, h]
  rfl

end Program

/-! ## the stops of a walk -/

namespace Act

/-- Counts what a visit came to. -/
def tally : Outcome (BarrierError K) (Visit M) → Act K M Unit
  | .ok (.released _) => ask (.count .released)
  | .ok .drained => ask (.count .groupsRemoved)
  | .ok .stale => ask (.count .staleKeys)
  | _ => pure ()

/-- A stop of a walk at a key: a visit in its section, and its count. -/
def stop (rules : Rules K M) (policy : TokenPolicy) (k : K) : Act K M (Outcome (BarrierError K) (Visit M)) := do
  let a ← Program.within k (visit rules policy k)
  tally a
  return a

omit [DecidableEq K] [BEq M] in
/-- A walk stops at the keys one after the other, until it fails or brings a message. -/
theorem walk_cons (rules : Rules K M) (policy : TokenPolicy) (k : K) (rest : List K) :
    walk rules policy (k :: rest) = stop rules policy k >>= fun
      | .error f => return .error f
      | .ok (.released m) => return .ok (some m)
      | .ok _ => walk rules policy rest := by
  refine Eq.symm ((Program.bind_assoc ..).trans (congrArg _ (funext fun a => ?_)))
  rcases a with f | (m | _ | _ | _) <;> rfl

end Act

/-! ## what a visit comes to -/

/-- The call with which a message is handed out. -/
def ReleaseMode.method : ReleaseMode → StoreMethod
  | .remove => .remove
  | .mark => .mark

/-- The store once a message is handed out. -/
def GroupStore.handOut (mode : ReleaseMode) (s : GroupStore K M) (k : K) (m : M) : GroupStore K M :=
  match mode with
  | .remove => s.remove k m
  | .mark => s.mark k m

namespace Barrier

omit [DecidableEq K] [BEq M] in
/-- What is left of a barrier: its rules are the same, the rest is as given, and some events were reported. -/
structure Leaves (b b' : Barrier K M) (table : LockTable K) (store : GroupStore K M) (stats : Stats)
    (events : List (Event K M)) : Prop where
  rules : b'.rules = b.rules
  table : b'.table = table
  store : b'.store = store
  stats : b'.stats = stats
  events : b'.events = b.events ++ events

/-- Why a visit to a key can fail: a call on the store fails before it takes effect, or the rule cannot judge the group. -/
inductive Trouble (envs : Nat → Surroundings) (b : Barrier K M) (k : K) : Failure (BarrierError K) → Prop where
  | store {n method fault} (fails : (envs n).fault method = some fault) :
    Trouble envs b k (fault.failure.map .store)
  | rule {g now f} (group : b.store.group k = some g) (judged : b.rules.release g now = .error f) :
    Trouble envs b k (f.map (.release k))

/-- What a visit to a key may come to, and what it leaves of the barrier, its count included. -/
inductive Visits (envs : Nat → Surroundings) (b : Barrier K M) (k : K) :
    Outcome (BarrierError K) (Visit M) → Barrier K M → Prop where
  | failed {f b'} (trouble : b.Trouble envs k f) (leaves : b.Leaves b' (b.table.touch k) b.store b.stats []) :
    Visits envs b k (.error f) b'
  | held {g now b'} (group : b.store.group k = some g) (judged : b.rules.release g now = .ok false)
    (leaves : b.Leaves b' (b.table.touch k) b.store b.stats []) : Visits envs b k (.ok .held) b'
  | released {g now m rest b'} (group : b.store.group k = some g) (judged : b.rules.release g now = .ok true)
    (unmarked : g.unmarked = m :: rest)
    (leaves : b.Leaves b' (b.table.touch k) (b.store.handOut b.rules.mode k m) (b.stats.bump .released)
      [.released k m]) : Visits envs b k (.ok (.released m)) b'
  | drained {g now b'} (group : b.store.group k = some g) (judged : b.rules.release g now = .ok true)
    (unmarked : g.unmarked = [])
    (leaves : b.Leaves b' (b.table.expel k) (b.store.dropGroup k) (b.stats.bump .groupsRemoved) [.drained k]) :
    Visits envs b k (.ok .drained) b'
  | forgotten {b'} (validated : b.table.policy = .validated) (group : b.store.group k = none)
    (leaves : b.Leaves b' (b.table.expel k) b.store (b.stats.bump .staleKeys) [.staleKey k]) :
    Visits envs b k (.ok .stale) b'
  | missed {b'} (tolerant : b.table.policy = .tolerant) (group : b.store.group k = none)
    (leaves : b.Leaves b' (b.table.touch k) b.store (b.stats.bump .staleKeys) [.staleKey k]) :
    Visits envs b k (.ok .stale) b'

/-- What a walk along the keys may come to: it ends with the first failure or the first message. -/
inductive Walks (envs : Nat → Surroundings) :
    List K → Barrier K M → Outcome (BarrierError K) (Option M) → Barrier K M → Prop where
  | nil {b} : Walks envs [] b (.ok none) b
  | failed {k rest b f b'} (visit : b.Visits envs k (.error f) b') : Walks envs (k :: rest) b (.error f) b'
  | released {k rest b m b'} (visit : b.Visits envs k (.ok (.released m)) b') :
    Walks envs (k :: rest) b (.ok (some m)) b'
  | onward {k rest b v b' a b''} (visit : b.Visits envs k (.ok v) b') (nothing : ∀ m, v ≠ .released m)
    (walk : Walks envs rest b' a b'') : Walks envs (k :: rest) b a b''

end Barrier

/-- The shared data once the outcome of a visit is counted. -/
def Shared.tally (d : Shared K M) : Outcome (BarrierError K) (Visit M) → Shared K M
  | .ok (.released _) => { d with stats := d.stats.bump .released }
  | .ok .drained => { d with stats := d.stats.bump .groupsRemoved }
  | .ok .stale => { d with stats := d.stats.bump .staleKeys }
  | _ => d

omit [DecidableEq K] [BEq M] in
@[simp] theorem Shared.journal_tally (d : Shared K M) (a : Outcome (BarrierError K) (Visit M)) :
    (d.tally a).journal = d.journal := by
  unfold tally
  split <;> rfl

/-! ## the sections of a pull -/

namespace Program

variable (envs : Nat → Surroundings) (k : K) (m : M) (t : LockTable K) (ss : List (Held K)) (n : Nat) (d : Shared K M)

/-- Handing out fails and leaves the store as it is, or the store gives the message and this is reported. -/
theorem run_handOut (mode : ReleaseMode) :
    (∃ fault, (envs n).fault mode.method = some fault ∧
      (Act.handOut mode k m).run Shared.inTurn envs ⟨t, ss, (n, d)⟩ =
        (.error (fault.failure.map .store), ⟨t, ss, (n + 1, d.noted mode.method k)⟩)) ∨
    (Act.handOut mode k m).run Shared.inTurn envs ⟨t, ss, (n, d)⟩ = (.ok (.released m), ⟨t, ss,
      (n + 2, Shared.told { d.noted mode.method k with store := d.store.handOut mode k m } (.released k m))⟩) := by
  have asked {r : Outcome StoreError Unit} {d' : Shared K M}
      (h : d.onStore (envs n) mode.method k (fun s => .ok ((), s.handOut mode k m)) = (r, d')) :
      (Act.handOut mode k m).run Shared.inTurn envs ⟨t, ss, (n, d)⟩ = match r with
        | .error f => (.error (f.map .store), ⟨t, ss, (n + 1, d')⟩)
        | .ok () => (.ok (.released m), ⟨t, ss, (n + 2, d'.told (.released k m))⟩) := by
    cases mode with
    | remove =>
      have removed : d.perform (envs n) (.remove k m) = (r, d') := h
      refine (run_ask removed _ t ss).trans ?_
      cases r <;> rfl
    | mark =>
      have marked : d.perform (envs n) (.mark k m) = (r, d') := h
      refine (run_ask marked _ t ss).trans ?_
      cases r <;> rfl
  cases fault : (envs n).fault mode.method with
  | some f => exact .inl ⟨f, rfl, asked (Shared.onStore_of_fault fault)⟩
  | none => exact .inr (asked (Shared.onStore_of_ok fault rfl))

/-- Dropping a group fails and leaves it as it is, or the group is dropped and after it the key. -/
theorem run_dropDrained (t : LockTable K) (i : TokenId) :
    (∃ fault, (envs n).fault .dropGroup = some fault ∧
      (Act.dropDrained (M := M) k).run Shared.inTurn envs ⟨t, ⟨k, i⟩ :: ss, (n, d)⟩ =
        (.error (fault.failure.map .store), ⟨t, ⟨k, i⟩ :: ss, (n + 1, d.noted .dropGroup k)⟩)) ∨
    (Act.dropDrained k).run Shared.inTurn envs ⟨t, ⟨k, i⟩ :: ss, (n, d)⟩ =
      (.ok .drained, ⟨((t.retire i).unlink k i).2, ⟨k, i⟩ :: ss,
        (n + 2, Shared.told { d.noted .dropGroup k with store := d.store.dropGroup k } (.drained k))⟩) := by
  unfold Act.dropDrained
  cases fault : (envs n).fault .dropGroup with
  | some fault' =>
    have dropped : d.perform (envs n) (.dropGroup k) = (.error fault'.failure, d.noted .dropGroup k) := by
      rw [Shared.perform, Shared.onStore_of_fault fault]
      rfl
    exact .inl ⟨fault', rfl, run_ask dropped ..⟩
  | none =>
    have dropped : d.perform (envs n) (.dropGroup k) =
        (.ok (), { d.noted .dropGroup k with store := d.store.dropGroup k }) := by
      rw [Shared.perform, Shared.onStore_of_ok fault rfl]
      rfl
    exact .inr (run_ask dropped ..)

end Program

namespace Barrier

/-- Inside the section of a key, before the `n`-th call. -/
def inside (b : Barrier K M) (k : K) (n : Nat) : Solo K (Nat × Shared K M) :=
  ⟨(b.table.acquire k).2.hold (b.table.acquire k).1, [⟨k, (b.table.acquire k).1⟩], (n, b.shared)⟩

/-- What a visit does inside its section comes to what `Visits` says. -/
theorem visits_visit (envs : Nat → Surroundings) (b : Barrier K M) (k : K) (n : Nat) :
    ∃ a t n' d, (Act.visit b.rules b.table.policy k).run Shared.inTurn envs (b.inside k n) =
        (a, ⟨t, [⟨k, (b.table.acquire k).1⟩], (n', d)⟩) ∧ t.policy = b.table.policy ∧
      b.Visits envs k a ⟨b.rules, t.release (b.table.acquire k).1, d.tally a⟩ := by
  have kept : (b.table.touch k).policy = b.table.policy := b.table.policy_touch k
  have gone : (b.table.expel k).policy = b.table.policy := b.table.policy_expel k
  -- one case per way out of the section, in the order of its calls
  unfold Act.visit inside
  cases fault : (envs n).fault .group with
  | some fault' =>
    rw [Program.run_ask (Shared.read_of_fault fault)]
    exact ⟨_, _, _, _, rfl, kept, .failed (.store fault) ⟨rfl, rfl, rfl, rfl, by simp [events]⟩⟩
  | none =>
    rw [Program.run_ask (Shared.read_of_no_fault fault)]
    cases group : b.shared.store.group k with
    | none =>
      cases policy : b.table.policy with
      | validated =>
        exact ⟨_, _, _, (b.shared.noted .group k).told (.staleKey k), rfl, gone.trans policy,
          .forgotten policy group ⟨rfl, rfl, rfl, rfl, by simp [events]⟩⟩
      | tolerant =>
        exact ⟨_, _, _, (b.shared.noted .group k).told (.staleKey k), rfl, kept.trans policy,
          .missed policy group ⟨rfl, rfl, rfl, rfl, by simp [events]⟩⟩
    | some g =>
      have clock : (b.shared.noted .group k).perform (envs (n + 1)) .clock =
        ((envs (n + 1)).now, b.shared.noted .group k) := rfl
      dsimp only
      rw [Program.run_ask clock]
      cases judged : b.rules.release g (envs (n + 1)).now with
      | error f => exact ⟨_, _, _, _, rfl, kept, .failed (.rule group judged) ⟨rfl, rfl, rfl, rfl, by simp [events]⟩⟩
      | ok may =>
        cases may with
        | false => exact ⟨_, _, _, _, rfl, kept, .held group judged ⟨rfl, rfl, rfl, rfl, by simp [events]⟩⟩
        | true =>
          cases unmarked : g.unmarked with
          | cons m rest =>
            dsimp only
            rcases Program.run_handOut envs k m _ _ (n + 2) (b.shared.noted .group k) b.rules.mode with
              ⟨fault', fault, failed⟩ | given
            · exact ⟨_, _, _, _, failed, kept, .failed (.store fault) ⟨rfl, rfl, rfl, rfl, by simp [events]⟩⟩
            · exact ⟨_, _, _, _, given, kept, .released group judged unmarked ⟨rfl, rfl, rfl, rfl, by simp [events]⟩⟩
          | nil =>
            dsimp only
            rcases Program.run_dropDrained envs k _ (n + 2) (b.shared.noted .group k) _ _ with
              ⟨fault', fault, failed⟩ | dropped
            · exact ⟨_, _, _, _, failed, kept, .failed (.store fault) ⟨rfl, rfl, rfl, rfl, by simp [events]⟩⟩
            · exact ⟨_, _, _, _, dropped, gone, .drained group judged unmarked ⟨rfl, rfl, rfl, rfl, by simp [events]⟩⟩

/-- A barrier as a thread on its own finds it before its `n`-th call. -/
def solo (b : Barrier K M) (n : Nat) : Solo K (Nat × Shared K M) := ⟨b.table, [], (n, b.shared)⟩

/-- A stop comes to what `Visits` says. -/
theorem visits_stop (envs : Nat → Surroundings) (b : Barrier K M) (k : K) (n : Nat) :
    ∃ a b' n', b.Visits envs k a b' ∧
      (Act.stop b.rules b.table.policy k).run Shared.inTurn envs (b.solo n) = (a, b'.solo n') := by
  obtain ⟨a, t, n', d, ran, -, visits⟩ := visits_visit envs b k n
  have inSection := Program.run_section ran
  have stopped : (Act.stop b.rules b.table.policy k).run Shared.inTurn envs (b.solo n) = _ :=
    Program.run_bind Shared.inTurn envs (Program.within k (Act.visit b.rules b.table.policy k)) _ (b.solo n)
  rw [solo, inSection] at stopped
  rcases a with f | (m | _ | _ | _)
  · exact ⟨_, _, n', visits, stopped⟩
  · exact ⟨_, _, n' + 1, visits, stopped⟩
  · exact ⟨_, _, n', visits, stopped⟩
  · exact ⟨_, _, n' + 1, visits, stopped⟩
  · exact ⟨_, _, n' + 1, visits, stopped⟩

section Runs

variable {envs : Nat → Surroundings} {b b' : Barrier K M} {k j : K} {ks : List K}

theorem Visits.rules {a : Outcome (BarrierError K) (Visit M)} (visits : b.Visits envs k a b') : b'.rules = b.rules := by
  cases visits <;> exact Leaves.rules ‹_›

theorem Visits.policy {a : Outcome (BarrierError K) (Visit M)} (visits : b.Visits envs k a b') :
    b'.table.policy = b.table.policy := by
  cases visits with
  | failed _ leaves | held _ _ leaves | released _ _ _ leaves | missed _ _ leaves =>
    rw [leaves.table, LockTable.policy_touch]
  | drained _ _ _ leaves | forgotten _ _ leaves => rw [leaves.table, LockTable.policy_expel]

/-- A visit leaves other keys alone. -/
theorem Visits.elsewhere {a : Outcome (BarrierError K) (Visit M)} (visits : b.Visits envs k a b') (other : k ≠ j) :
    b'.store.group j = b.store.group j ∧ b'.table.current j = b.table.current j := by
  cases visits with
  | failed _ leaves | held _ _ leaves | missed _ _ leaves =>
    rw [leaves.store, leaves.table, LockTable.current_touch_of_ne other]
    exact ⟨rfl, rfl⟩
  | released _ _ _ leaves =>
    rw [leaves.store, leaves.table, LockTable.current_touch_of_ne other]
    refine ⟨?_, rfl⟩
    cases b.rules.mode with
    | remove | mark => exact (GroupStore.group_change ..).trans (if_neg other)
  | drained _ _ _ leaves =>
    rw [leaves.store, leaves.table, LockTable.current_expel, if_neg other, GroupStore.group_dropGroup, if_neg other]
    exact ⟨rfl, rfl⟩
  | forgotten _ _ leaves =>
    rw [leaves.store, leaves.table, LockTable.current_expel, if_neg other]
    exact ⟨rfl, rfl⟩

theorem Walks.rules {a : Outcome (BarrierError K) (Option M)} (walks : Walks envs ks b a b') : b'.rules = b.rules := by
  induction walks with
  | nil => rfl
  | failed visit | released visit => exact visit.rules
  | onward visit _ _ ih => exact ih.trans visit.rules

theorem Walks.policy {a : Outcome (BarrierError K) (Option M)} (walks : Walks envs ks b a b') :
    b'.table.policy = b.table.policy := by
  induction walks with
  | nil => rfl
  | failed visit | released visit => exact visit.policy
  | onward visit _ _ ih => exact ih.trans visit.policy

/-- A walk leaves alone the keys that are not on it. -/
theorem Walks.elsewhere {a : Outcome (BarrierError K) (Option M)} (walks : Walks envs ks b a b') (off : j ∉ ks) :
    b'.store.group j = b.store.group j ∧ b'.table.current j = b.table.current j := by
  induction walks with
  | nil => exact ⟨rfl, rfl⟩
  | failed visit | released visit => exact visit.elsewhere fun e => off (e ▸ List.mem_cons_self)
  | onward visit _ _ ih =>
    obtain ⟨group, current⟩ := visit.elsewhere fun e => off (e ▸ List.mem_cons_self)
    obtain ⟨group', current'⟩ := ih fun mem => off (List.mem_cons_of_mem _ mem)
    exact ⟨group'.trans group, current'.trans current⟩

/-- The keys ahead of a walk stay tracked. -/
theorem Visits.ahead {a : Outcome (BarrierError K) (Visit M)} {rest : List K} (visits : b.Visits envs k a b')
    (nodup : (k :: rest).Nodup) (tracked : ∀ j ∈ k :: rest, j ∈ b.table.keys) : ∀ j ∈ rest, j ∈ b'.table.keys := by
  intro j mem
  have other : k ≠ j := fun e => (List.nodup_cons.1 nodup).1 (e ▸ mem)
  rw [LockTable.mem_keys_iff, (visits.elsewhere other).2, ← LockTable.mem_keys_iff]
  exact tracked j (List.mem_cons_of_mem _ mem)

end Runs

/-- The walk goes on from where a stop leaves the barrier. -/
theorem visits_walk (envs : Nat → Surroundings) (b : Barrier K M) (k : K) (rest : List K) (n : Nat) :
    ∃ a b' n', b.Visits envs k a b' ∧
      (Act.walk b.rules b.table.policy (k :: rest)).run Shared.inTurn envs (b.solo n) = match a with
        | .error f => (.error f, b'.solo n')
        | .ok (.released m) => (.ok (some m), b'.solo n')
        | .ok _ => (Act.walk b'.rules b'.table.policy rest).run Shared.inTurn envs (b'.solo n') := by
  obtain ⟨a, b', n', visits, stopped⟩ := visits_stop envs b k n
  refine ⟨a, b', n', visits, ?_⟩
  rw [Act.walk_cons, Program.bind_eq, Program.run_bind, stopped, visits.rules, visits.policy]
  rcases a with f | (m | _ | _ | _) <;> rfl

/-- A walk along the keys comes to what `Walks` says. -/
theorem walks_walk (envs : Nat → Surroundings) (ks : List K) (b : Barrier K M) (n : Nat) :
    ∃ a b' n', (Act.walk b.rules b.table.policy ks).run Shared.inTurn envs (b.solo n) = (a, b'.solo n') ∧
      Walks envs ks b a b' := by
  induction ks generalizing b n with
  | nil => exact ⟨_, b, n, rfl, .nil⟩
  | cons k rest ih =>
    obtain ⟨a, b', n', visits, walked⟩ := visits_walk envs b k rest n
    rcases a with f | v
    · exact ⟨_, b', n', walked, .failed visits⟩
    · cases v with
      | released m => exact ⟨_, b', n', walked, .released visits⟩
      | _ =>
        obtain ⟨a, b'', n'', ran, walks⟩ := ih b' n'
        exact ⟨a, b'', n'', walked.trans ran, .onward visits nofun walks⟩

/-! ## operations with circumstances in turn -/

/-- Runs a program on the barrier with nobody else around; its `n`-th call finds the `n`-th circumstances. -/
def runInTurn {α : Type} (envs : Nat → Surroundings) (p : Act K M α) (b : Barrier K M) : α × Barrier K M :=
  let (a, s) := p.run Shared.inTurn envs (b.solo 0)
  (a, { b with table := s.table, shared := s.data.2 })

theorem runInTurn_map {α β : Type} (envs : Nat → Surroundings) (f : α → β) (p : Act K M α) (b : Barrier K M) :
    b.runInTurn envs (f <$> p) = (f (b.runInTurn envs p).1, (b.runInTurn envs p).2) := by
  show b.runInTurn envs (p.bind fun a => .done (f a)) = _
  rw [runInTurn, Program.run_bind]
  rfl

/-- Hands out at most one message. -/
def pullInTurn (envs : Nat → Surroundings) (order : WalkOrder K) (b : Barrier K M) :
    Outcome (BarrierError K) (Option M) × Barrier K M :=
  b.runInTurn envs (Act.pull b.rules b.table.policy order)

/-- Buffers a message. -/
def acceptInTurn (envs : Nat → Surroundings) (m : M) (b : Barrier K M) : Outcome (BarrierError K) Unit × Barrier K M :=
  b.runInTurn envs (Act.accept b.rules b.table.policy m)

/-- Under unchanging circumstances the turns make no difference. -/
theorem runInTurn_const {α : Type} (env : Surroundings) (p : Act K M α) (b : Barrier K M) :
    b.runInTurn (fun _ => env) p = b.runAct env p := by
  have same (s : Solo K (Shared K M)) (n : Nat) : ∃ n',
      p.run Shared.inTurn (fun _ => env) ⟨s.table, s.sections, (n, s.data)⟩ =
        ((p.run Shared.service env s).1, ⟨(p.run Shared.service env s).2.table, (p.run Shared.service env s).2.sections,
          (n', (p.run Shared.service env s).2.data)⟩) := by
    induction p generalizing s n with
    | done a => exact ⟨n, rfl⟩
    | acquire k next ih => exact ih _ ⟨_, _, _⟩ n
    | look next ih => exact ih _ ⟨_, _, _⟩ n
    | enter k next ih => exact ih ⟨_, _, _⟩ n
    | call c next ih => exact ih _ ⟨_, _, _⟩ (n + 1)
    | leave next ih =>
      obtain ⟨t, ss, d⟩ := s
      cases ss with
      | nil => exact ih ⟨_, _, _⟩ n
      | cons h rest => exact ih ⟨_, _, _⟩ n
    | forget depth next ih | isCurrent depth next ih =>
      simp only [Program.run]
      cases s.sections[depth]? with
      | none => exact ih _ ⟨_, _, _⟩ n
      | some h => exact ih _ ⟨_, _, _⟩ n
  obtain ⟨n', ran⟩ := same ⟨b.table, [], b.shared⟩ 0
  rw [runInTurn, solo, ran]
  rfl

theorem walks_pullInTurn (envs : Nat → Surroundings) (order : WalkOrder K) (b : Barrier K M) :
    Walks envs (order.arrange b.table.keys) b (b.pullInTurn envs order).1 (b.pullInTurn envs order).2 := by
  obtain ⟨a, b', n', ran, walks⟩ := walks_walk envs (order.arrange b.table.keys) b 0
  have pulled : b.pullInTurn envs order = (a, { b with table := b'.table, shared := b'.shared }) := by
    show (let (a, s) := (Act.walk b.rules b.table.policy (order.arrange b.table.keys)).run Shared.inTurn envs (b.solo 0)
      (a, { b with table := s.table, shared := s.data.2 })) = _
    rw [ran]
    rfl
  rw [pulled, ← walks.rules]
  exact walks

theorem pull_eq_pullInTurn (env : Surroundings) (order : WalkOrder K) (b : Barrier K M) :
    b.pull env order = b.pullInTurn (fun _ => env) order := (runInTurn_const ..).symm

end Barrier

end CorrelationBarrier
