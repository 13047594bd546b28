import CorrelationBarrier.Proofs.Barrier.Solo

/-!
# Messages that are refused

A message that is not accepted leaves no trace, where every tracked key has a group and every group a tracked key.

* `Barrier.Intakes` — what the section of an accepting operation may come to, one rule for each way; `accept_cases` shows
  that an acceptance is one of them, or nothing at all if no key can be derived;
* `Barrier.Tidy` — the tracked keys of a barrier are the keys with groups, and no token is held;
* `Tidy.serve` — operations served one after the other keep a barrier tidy while calls on the store do not fail;
* `rejected_leaves_no_trace` — the result.
-/

namespace CorrelationBarrier

variable {K M : Type} [DecidableEq K] [BEq M]

namespace Barrier

/-- When the key of a refused message is forgotten again. -/
def Withdraws (envs : Nat → Surroundings) (b : Barrier K M) (k : K) (f : Failure StoreError) : Prop :=
  b.table.policy = .validated ∧ (∃ e, f = .error e) ∧ (envs 1).fault .group = none ∧ b.store.group k = none

/-- What the section of an accepting operation may come to, and what it leaves of the barrier. -/
inductive Intakes (envs : Nat → Surroundings) (b : Barrier K M) (k : K) (m : M) :
    Outcome StoreError Unit → Barrier K M → Prop where
  | added {store b'} (add : b.store.add (envs 0).now k m = .ok store)
    (leaves : b.Leaves b' (b.table.touch k) store b.stats []) : Intakes envs b k m (.ok ()) b'
  | kept {f b'} (cause : (∃ n method, (envs n).fault method ≠ none) ∨ ∃ e, f = .error e) (stays : ¬ b.Withdraws envs k f)
    (leaves : b.Leaves b' (b.table.touch k) b.store b.stats []) : Intakes envs b k m (.error f) b'
  | withdrawn {f b'} (goes : b.Withdraws envs k f) (leaves : b.Leaves b' (b.table.expel k) b.store b.stats []) :
    Intakes envs b k m (.error f) b'

variable (envs : Nat → Surroundings) (b : Barrier K M) (k : K) (m : M)

/-- A refused message leaves the key where the section found it, unless it withdraws it. -/
theorem intakes_of_refused {f : Failure StoreError} (cause : (∃ n method, (envs n).fault method ≠ none) ∨ ∃ e, f = .error e)
    (refused : b.shared.perform (envs 0) (.add k m) = (.error f, b.shared.noted .add k)) :
    ∃ a t n d, (Act.intake b.table.policy k m).run Shared.inTurn envs (b.inside k 0) =
        (a, ⟨t, [⟨k, (b.table.acquire k).1⟩], (n, d)⟩) ∧ t.policy = b.table.policy ∧
      b.Intakes envs k m a ⟨b.rules, t.release (b.table.acquire k).1, d⟩ := by
  have kept : (b.table.touch k).policy = b.table.policy := b.table.policy_touch k
  have gone : (b.table.expel k).policy = b.table.policy := b.table.policy_expel k
  unfold Act.intake inside
  rw [Program.run_ask refused]
  -- only an error under a table that checks tokens is followed by a look-up
  cases f with
  | panic text =>
    have stays : ¬ b.Withdraws envs k (.panic text) := fun h => by
      obtain ⟨e, he⟩ := h.2.1
      cases he
    exact ⟨_, _, _, _, rfl, kept, .kept cause stays ⟨rfl, rfl, rfl, rfl, by simp [events]⟩⟩
  | error e =>
    cases policy : b.table.policy with
    | tolerant =>
      have stays : ¬ b.Withdraws envs k (.error e) := fun h => by
        rw [h.1] at policy
        cases policy
      exact ⟨_, _, _, _, rfl, kept.trans policy, .kept cause stays ⟨rfl, rfl, rfl, rfl, by simp [events]⟩⟩
    | validated =>
      dsimp only
      rw [if_pos rfl]
      cases fault : (envs 1).fault .group with
      | some fault' =>
        rw [Program.run_ask (Shared.read_of_fault fault)]
        have stays (f : Failure StoreError) : ¬ b.Withdraws envs k f := fun h => by
          rw [h.2.2.1] at fault
          cases fault
        have cause (f : Failure StoreError) : (∃ n method, (envs n).fault method ≠ none) ∨ ∃ e, f = .error e :=
          .inl ⟨1, .group, by simp [fault]⟩
        cases fault' with
        | fails reason =>
          exact ⟨_, _, _, _, rfl, kept.trans policy, .kept (cause _) (stays _) ⟨rfl, rfl, rfl, rfl, by simp [events]⟩⟩
        | panics text =>
          exact ⟨_, _, _, _, rfl, kept.trans policy, .kept (cause _) (stays _) ⟨rfl, rfl, rfl, rfl, by simp [events]⟩⟩
      | none =>
        rw [Program.run_ask (Shared.read_of_no_fault fault)]
        cases group : (b.shared.noted .add k).store.group k with
        | some g =>
          have stays : ¬ b.Withdraws envs k (.error e) := fun h => by cases h.2.2.2.symm.trans group
          exact ⟨_, _, _, _, rfl, kept.trans policy, .kept (.inr ⟨e, rfl⟩) stays ⟨rfl, rfl, rfl, rfl, by simp [events]⟩⟩
        | none =>
          exact ⟨_, _, _, _, rfl, gone.trans policy,
            .withdrawn ⟨policy, ⟨e, rfl⟩, fault, group⟩ ⟨rfl, rfl, rfl, rfl, by simp [events]⟩⟩

/-- What the section of an accepting operation does comes to what `Intakes` says. -/
theorem intakes_intake :
    ∃ a t n d, (Act.intake b.table.policy k m).run Shared.inTurn envs (b.inside k 0) =
        (a, ⟨t, [⟨k, (b.table.acquire k).1⟩], (n, d)⟩) ∧ t.policy = b.table.policy ∧
      b.Intakes envs k m a ⟨b.rules, t.release (b.table.acquire k).1, d⟩ := by
  cases fault : (envs 0).fault .add with
  | some fault' =>
    have refused : b.shared.perform (envs 0) (.add k m) = (.error fault'.failure, b.shared.noted .add k) := by
      rw [Shared.perform, Shared.onStore_of_fault fault]
      rfl
    exact intakes_of_refused envs b k m (.inl ⟨0, .add, by simp [fault]⟩) refused
  | none =>
    cases add : b.store.add (envs 0).now k m with
    | error e =>
      have refused : b.shared.perform (envs 0) (.add k m) = (.error (.error e), b.shared.noted .add k) := by
        rw [Shared.perform, Shared.onStore_of_error fault (congrArg (Except.map _) add)]
        rfl
      exact intakes_of_refused envs b k m (.inr ⟨e, rfl⟩) refused
    | ok store =>
      have added : b.shared.perform (envs 0) (.add k m) = (.ok (), { b.shared.noted .add k with store := store }) := by
        rw [Shared.perform, Shared.onStore_of_ok fault (congrArg (Except.map _) add)]
        rfl
      unfold Act.intake inside
      rw [Program.run_ask added]
      exact ⟨_, _, _, _, rfl, b.table.policy_touch k, .added add ⟨rfl, rfl, rfl, rfl, by simp [events]⟩⟩

omit [BEq M] in
variable {envs b k m} in
theorem Intakes.refused {f : Failure StoreError} {b' : Barrier K M} (intakes : b.Intakes envs k m (.error f) b') :
    b'.store = b.store ∧ b'.stats = b.stats ∧ (∀ j, k ≠ j → b'.table.current j = b.table.current j) ∧
      (k ∉ b'.table.keys ↔ b.Withdraws envs k f) := by
  cases intakes with
  | kept _ stays leaves =>
    have tracked : k ∈ b'.table.keys := by rw [leaves.table, LockTable.mem_keys_touch]; exact .inl rfl
    refine ⟨leaves.store, leaves.stats, fun j other => ?_, fun off => absurd tracked off, fun goes => absurd goes stays⟩
    rw [leaves.table, LockTable.current_touch_of_ne other]
  | withdrawn goes leaves =>
    have off : k ∉ b'.table.keys := by rw [leaves.table, LockTable.mem_keys_expel]; exact fun h => h.1 rfl
    refine ⟨leaves.store, leaves.stats, fun j other => ?_, fun _ => goes, fun _ => off⟩
    rw [leaves.table, LockTable.current_expel, if_neg other]

omit [DecidableEq K] [BEq M] in
/-- The barrier once a message that was added is counted and reported. -/
def counted (b : Barrier K M) (k : K) (m : M) : Barrier K M :=
  { b with shared := Shared.told { b.shared with stats := b.stats.bump .accepted } (.accepted k m) }

omit [DecidableEq K] [BEq M] in
/-- What an acceptance comes to that has left its section: a message that was added is counted and reported. -/
def afterIntake (b : Barrier K M) (k : K) (m : M) :
    Outcome StoreError Unit → Outcome (BarrierError K) Unit × Barrier K M
  | .error f => (.error (f.map .store), b)
  | .ok () => (.ok (), b.counted k m)

variable {envs b k m} in
/-- An acceptance comes to what its section comes to. -/
theorem accept_of_intake {a : Outcome StoreError Unit} {t : LockTable K} {n : Nat} {d : Shared K M}
    (key : b.rules.correlate m = .ok k)
    (ran : (Act.intake b.table.policy k m).run Shared.inTurn envs (b.inside k 0) =
      (a, ⟨t, [⟨k, (b.table.acquire k).1⟩], (n, d)⟩)) :
    b.acceptInTurn envs m = afterIntake ⟨b.rules, t.release (b.table.acquire k).1, d⟩ k m a := by
  have inSection := Program.run_section ran
  rw [acceptInTurn, runInTurn, solo, Act.accept, key]
  dsimp only
  rw [Program.bind_eq, Program.run_bind, inSection]
  cases a <;> rfl

/-- An acceptance does nothing if no key can be derived; else it comes to what its section comes to, which is counted and
reported if the message was added. -/
theorem accept_cases :
    (∃ f, b.rules.correlate m = .error f ∧ Act.accept b.rules b.table.policy m = .done (.error (f.map .correlation)) ∧
      b.acceptInTurn envs m = (.error (f.map .correlation), b)) ∨
    ∃ k a b', b.rules.correlate m = .ok k ∧ b.Intakes envs k m a b' ∧ b.acceptInTurn envs m = match a with
      | .error f => (.error (f.map .store), b')
      | .ok () => (.ok (), b'.counted k m) := by
  cases key : b.rules.correlate m with
  | error f =>
    have nothing : Act.accept b.rules b.table.policy m = .done (.error (f.map .correlation)) := by
      rw [Act.accept, key]
      rfl
    refine .inl ⟨f, rfl, nothing, ?_⟩
    rw [acceptInTurn, nothing]
    rfl
  | ok k =>
    obtain ⟨a, t, n, d, ran, -, intakes⟩ := intakes_intake envs b k m
    refine .inr ⟨k, a, _, rfl, intakes, (accept_of_intake key ran).trans ?_⟩
    cases a <;> rfl

/-! ## barriers without leftovers -/

omit [BEq M] in
/-- The tracked keys of a barrier whose table checks tokens are the keys with groups, and no token is held. -/
structure Tidy (b : Barrier K M) : Prop where
  validated : b.table.policy = .validated
  tracked : ∀ k, k ∈ b.table.keys ↔ (b.store.group k).isSome
  free : ∀ i, (b.table.token i).held = false

namespace Tidy

variable {envs b k m} {b' : Barrier K M} {store : GroupStore K M} {stats : Stats} {events : List (Event K M)}

omit [BEq M]

theorem new (rules : Rules K M) (capacity : Nat) : (Barrier.new rules .validated capacity).Tidy where
  validated := rfl
  tracked k := by simp [Barrier.new, Barrier.store, LockTable.new, LockTable.keys, GroupStore.empty, GroupStore.group,
    Assoc.empty, Assoc.keys, Assoc.get?, Assoc.lookup]
  free i := rfl

/-- A section that keeps its key keeps a barrier tidy if it leaves a group under the key, and no other new one. -/
theorem of_touch (tidy : b.Tidy) (leaves : b.Leaves b' (b.table.touch k) store stats events)
    (groups : ∀ j, (store.group j).isSome ↔ k = j ∨ (b.store.group j).isSome) : b'.Tidy where
  validated := by rw [leaves.table, LockTable.policy_touch, tidy.validated]
  tracked j := by rw [leaves.table, leaves.store, LockTable.mem_keys_touch, groups, tidy.tracked]
  free i := by
    rw [leaves.table, Bool.eq_false_iff]
    intro held
    have before := LockTable.held_touch held
    rw [tidy.free] at before
    cases before

/-- A section that forgets its key keeps a barrier tidy if it leaves all groups but the one of its key. -/
theorem of_expel (tidy : b.Tidy) (leaves : b.Leaves b' (b.table.expel k) store stats events)
    (groups : ∀ j, (store.group j).isSome ↔ k ≠ j ∧ (b.store.group j).isSome) : b'.Tidy where
  validated := by rw [leaves.table, LockTable.policy_expel, tidy.validated]
  tracked j := by rw [leaves.table, leaves.store, LockTable.mem_keys_expel, groups, tidy.tracked]
  free i := by
    rw [leaves.table, Bool.eq_false_iff]
    intro held
    have before := LockTable.held_expel held
    rw [tidy.free] at before
    cases before

theorem grouped (tidy : b.Tidy) (mem : k ∈ b.table.keys) : (b.store.group k).isSome := (tidy.tracked k).1 mem

/-- Where a key has a group already, the groups stay as many if they stay as they are. -/
theorem same_groups {s : GroupStore K M} (group : (s.group k).isSome) (j : K) :
    (s.group j).isSome ↔ k = j ∨ (s.group j).isSome :=
  ⟨.inr, fun h => h.elim (fun e => e ▸ group) id⟩

variable [BEq M]

theorem visit {a : Outcome (BarrierError K) (Visit M)} (tidy : b.Tidy) (mem : k ∈ b.table.keys)
    (visits : b.Visits envs k a b') : b'.Tidy := by
  have group := tidy.grouped mem
  cases visits with
  | failed _ leaves | held _ _ leaves | missed _ _ leaves => exact tidy.of_touch leaves (same_groups group)
  | @released g now m rest _ _ _ _ leaves =>
    refine tidy.of_touch leaves fun j => ?_
    have kept : ((b.store.handOut b.rules.mode k m).group j).isSome = (b.store.group j).isSome := by
      cases b.rules.mode with
      | remove | mark => exact GroupStore.isSome_group_change ..
    rw [kept]
    exact same_groups group j
  | drained _ _ _ leaves =>
    refine tidy.of_expel leaves fun j => ?_
    rw [GroupStore.group_dropGroup]
    by_cases hj : k = j <;> simp [hj]
  | forgotten _ none _ =>
    rw [none] at group
    cases group

theorem walk {ks : List K} {a : Outcome (BarrierError K) (Option M)} (tidy : b.Tidy) (nodup : ks.Nodup)
    (tracked : ∀ j ∈ ks, j ∈ b.table.keys) (walks : Walks envs ks b a b') : b'.Tidy := by
  induction walks with
  | nil => exact tidy
  | failed visit | released visit => exact tidy.visit (tracked _ List.mem_cons_self) visit
  | onward visit _ _ ih =>
    exact ih (tidy.visit (tracked _ List.mem_cons_self) visit) (List.nodup_cons.1 nodup).2 (visit.ahead nodup tracked)

theorem pull (tidy : b.Tidy) (envs : Nat → Surroundings) (order : WalkOrder K) : (b.pullInTurn envs order).2.Tidy :=
  tidy.walk (order.nodup_arrange b.table.keys_nodup) (fun _ => order.mem_arrange.1) (walks_pullInTurn envs order b)

omit [BEq M] in
/-- While the store is there to answer, the section of an accepting operation keeps a barrier tidy; and if it refuses the
message, it leaves everything as it was. -/
theorem intake {a : Outcome StoreError Unit} (tidy : b.Tidy) (quiet : ∀ n method, (envs n).fault method = none)
    (intakes : b.Intakes envs k m a b') :
    b'.Tidy ∧ ∀ f, a = .error f → b'.table.entries = b.table.entries ∧
      (∀ i < b.table.tokens.length, b'.table.token i = b.table.token i) ∧ b'.store = b.store ∧ b'.stats = b.stats := by
  cases intakes with
  | added add leaves =>
    refine ⟨tidy.of_touch leaves fun j => ?_, nofun⟩
    rw [GroupStore.group_add add]
    by_cases hj : k = j <;> simp [hj]
  | @kept f b' cause stays leaves =>
    have group : (b.store.group k).isSome := by
      by_contra none
      rcases cause with ⟨n, method, fails⟩ | error
      · exact fails (quiet n method)
      · exact stays ⟨tidy.validated, error, quiet 1 .group, by simpa using none⟩
    have mem : k ∈ b.table.keys := (tidy.tracked k).2 group
    refine ⟨tidy.of_touch leaves (same_groups group), fun f _ => ⟨?_, fun i _ => ?_, leaves.store, leaves.stats⟩⟩
    · rw [leaves.table, LockTable.entries_touch mem]
    · rw [leaves.table, LockTable.token_touch, ← tidy.free i]
      exact ite_self _
  | withdrawn goes leaves =>
    have group : b.store.group k = none := goes.2.2.2
    have off : k ∉ b.table.keys := by
      rw [tidy.tracked, group]
      exact nofun
    refine ⟨tidy.of_expel leaves fun j => ?_, fun f _ => ⟨?_, fun i made => ?_, leaves.store, leaves.stats⟩⟩
    · by_cases hj : k = j
      · subst hj
        simp [group]
      · simp [hj]
    · rw [leaves.table, LockTable.entries_expel]
      exact Assoc.erase_of_not_mem off
    · rw [leaves.table, LockTable.token_expel_of_ne]
      rw [LockTable.acquire_of_not_mem off]
      exact Nat.ne_of_gt made

omit [BEq M] in
theorem counted (tidy : b.Tidy) (k : K) (m : M) : (b.counted k m).Tidy := ⟨tidy.validated, tidy.tracked, tidy.free⟩

theorem accept (tidy : b.Tidy) (quiet : ∀ n method, (envs n).fault method = none) (m : M) :
    (b.acceptInTurn envs m).2.Tidy ∧ ∀ f, (b.acceptInTurn envs m).1 = .error f →
      (b.acceptInTurn envs m).2.table.entries = b.table.entries ∧
      (∀ i < b.table.tokens.length, (b.acceptInTurn envs m).2.table.token i = b.table.token i) ∧
      (b.acceptInTurn envs m).2.store = b.store ∧ (b.acceptInTurn envs m).2.stats = b.stats := by
  rcases accept_cases envs b m with ⟨f, -, -, refused⟩ | ⟨k, a, b', -, intakes, accepted⟩
  · rw [refused]
    exact ⟨tidy, fun _ _ => ⟨rfl, fun _ _ => rfl, rfl, rfl⟩⟩
  · obtain ⟨tidy', same⟩ := tidy.intake quiet intakes
    cases a with
    | error f =>
      rw [accepted]
      exact ⟨tidy', fun _ _ => same f rfl⟩
    | ok r =>
      rw [accepted]
      exact ⟨tidy'.counted k m, nofun⟩

end Tidy

/-! ## operations one after the other -/

/-- What an operation leaves of a barrier with nobody else around. -/
def conduct (envs : Nat → Surroundings) (op : Operation K M) (b : Barrier K M) : Barrier K M :=
  (b.runInTurn envs (Act.ofOperation b.rules b.table.policy op)).2

/-- What operations leave of a barrier that are served one after the other. -/
def serve (ops : List ((Nat → Surroundings) × Operation K M)) (b : Barrier K M) : Barrier K M :=
  ops.foldl (fun b o => b.conduct o.1 o.2) b

theorem conduct_accept (envs : Nat → Surroundings) (m : M) (b : Barrier K M) :
    b.conduct envs (.accept m) = (b.acceptInTurn envs m).2 := by
  rw [conduct, Act.ofOperation, runInTurn_map]
  rfl

theorem conduct_pull (envs : Nat → Surroundings) (order : WalkOrder K) (b : Barrier K M) :
    b.conduct envs (.pull order) = (b.pullInTurn envs order).2 := by
  rw [conduct, Act.ofOperation, runInTurn_map]
  rfl

theorem Tidy.conduct {envs : Nat → Surroundings} {b : Barrier K M} (tidy : b.Tidy)
    (quiet : ∀ n method, (envs n).fault method = none) (op : Operation K M) : (b.conduct envs op).Tidy := by
  cases op with
  | accept m =>
    rw [conduct_accept]
    exact (tidy.accept quiet m).1
  | pull order =>
    rw [conduct_pull]
    exact tidy.pull envs order

theorem Tidy.serve {b : Barrier K M} (tidy : b.Tidy) (ops : List ((Nat → Surroundings) × Operation K M))
    (quiet : ∀ o ∈ ops, ∀ n method, (o.1 n).fault method = none) : (b.serve ops).Tidy := by
  induction ops generalizing b with
  | nil => exact tidy
  | cons o rest ih =>
    exact ih (tidy.conduct (quiet o List.mem_cons_self) o.2) fun o ho => quiet o (List.mem_cons_of_mem _ ho)

/-- **A refused message leaves no trace.** After any operations one after the other on a new barrier whose table checks
tokens, while calls on the store do not fail, an acceptance that fails leaves the entries of the table, the tokens made
before, the store and the counters as they were.

From any state whatsoever, and whichever calls on the store fail: if no key can be derived, the operation does nothing at
all. If it is refused otherwise, the store, the counters and the entries of all other keys stay as they were, and its key
is tracked afterwards unless the table checks tokens, the store has reported an error, and the look-up after it has found
no group. -/
theorem rejected_leaves_no_trace (rules : Rules K M) (capacity : Nat)
    (ops : List ((Nat → Surroundings) × Operation K M))
    (quiet : ∀ o ∈ ops, ∀ n method, (o.1 n).fault method = none) :
    (∀ envs m f, (∀ n method, (envs n).fault method = none) →
      let b := (new rules .validated capacity).serve ops
      (b.acceptInTurn envs m).1 = .error f →
        let b' := (b.acceptInTurn envs m).2
        b'.table.entries = b.table.entries ∧ (∀ i < b.table.tokens.length, b'.table.token i = b.table.token i) ∧
          b'.store = b.store ∧ b'.stats = b.stats) ∧
    ∀ (b : Barrier K M) envs m,
      (∀ f, b.rules.correlate m = .error f →
        Act.accept b.rules b.table.policy m = .done (.error (f.map .correlation)) ∧
          b.acceptInTurn envs m = (.error (f.map .correlation), b)) ∧
      ∀ k f, b.rules.correlate m = .ok k → (b.acceptInTurn envs m).1 = .error f →
        let b' := (b.acceptInTurn envs m).2
        b'.store = b.store ∧ b'.stats = b.stats ∧ (∀ j, k ≠ j → b'.table.current j = b.table.current j) ∧
          ∃ cause : Failure StoreError, f = cause.map .store ∧
            (k ∉ b'.table.keys ↔ b.table.policy = .validated ∧ (∃ e, cause = .error e) ∧
              (envs 1).fault .group = none ∧ b.store.group k = none) := by
  refine ⟨fun envs m f quiet' refused => ?_, fun b envs m => ⟨fun f key => ?_, fun k f key refused => ?_⟩⟩
  · have tidy : ((new rules .validated capacity).serve ops).Tidy := (Tidy.new rules capacity).serve ops quiet
    exact (tidy.accept quiet' m).2 f refused
  · rcases accept_cases envs b m with ⟨f', key', nothing, done⟩ | ⟨k, -, -, key', -, -⟩
    · rw [key] at key'
      cases key'
      exact ⟨nothing, done⟩
    · rw [key] at key'
      cases key'
  · rcases accept_cases envs b m with ⟨f', key', -, -⟩ | ⟨k', a, b', key', intakes, accepted⟩
    · rw [key] at key'
      cases key'
    · rw [key] at key'
      cases key'
      rw [accepted] at refused ⊢
      cases a with
      | ok => cases refused
      | error cause =>
        cases refused
        obtain ⟨store, stats, others, goes⟩ := intakes.refused
        exact ⟨store, stats, others, cause, rfl, goes⟩

/-- A message that exceeds the capacity is refused, and its key is not tracked afterwards. -/
theorem rejected_by_full_store :
    let b := (new ({ correlate := .ok, release := .always } : Rules Nat Nat) .validated 1).serve
      [(fun _ => {}, .accept 1)]
    let r := b.acceptInTurn (fun _ => {}) 2
    r.1 = .error (.error (.store (.capacityExceeded 1))) ∧ b.pendingKeys = [1] ∧
      r.2.table.entries = b.table.entries ∧ r.2.store = b.store := by
  have quiet : ∀ o ∈ [((fun _ => {} : Nat → Surroundings), (Operation.accept 1 : Operation Nat Nat))], ∀ n method,
      (o.1 n).fault method = none := fun o mem n method => by rw [List.mem_singleton.1 mem]
  have refused : (((new ({ correlate := .ok, release := .always } : Rules Nat Nat) .validated 1).serve
      [(fun _ => {}, .accept 1)]).acceptInTurn (fun _ => {}) 2).1 = .error (.error (.store (.capacityExceeded 1))) := by
    decide
  have same := (rejected_leaves_no_trace _ 1 _ quiet).1 (fun _ => {}) 2 _ (fun _ _ => rfl) refused
  exact ⟨refused, by decide, same.1, same.2.2.1⟩

end Barrier

end CorrelationBarrier
