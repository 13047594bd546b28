import CorrelationBarrier.Proofs.Barrier.Draining
import CorrelationBarrier.Proofs.Barrier.Policies

/-!
# Operations served one after the other

What goes into a group and what comes out of it, in runs without other threads in which no call on the store fails.

* `Barrier.after`, `Barrier.record` — what a series of operations leaves of a barrier, and what they answer;
* `acceptedUnder`, `releasedUnder` — the messages of a key that went in and came out, as the answers show them;
* `Barrier.Gives` — what visits have given; `Walks.gives` shows it of every pull;
* `Barrier.Carries` — what one operation does for a key; `carries_answer`;
* `Barrier.Life` — the operations during which the group of a key is there. `life_of_group` — it holds what went in since,
  and has marked what came out; `acceptedUnder_eq` — the books of a key over a whole run.
-/

namespace CorrelationBarrier

variable {K M : Type} [DecidableEq K]

/-! ## what answers show -/

/-- Whether a message belongs under a key. -/
def Rules.keyed (rules : Rules K M) (k : K) (m : M) : Bool :=
  match rules.correlate m with
  | .ok j => j = k
  | .error _ => false

theorem Rules.keyed_iff {rules : Rules K M} {k : K} {m : M} : rules.keyed k m = true ↔ rules.correlate m = .ok k := by
  unfold keyed
  cases rules.correlate m with
  | ok j => simp
  | error f => simp

/-- The messages of a key that operations have accepted. -/
def acceptedUnder (rules : Rules K M) (k : K) (record : List (Operation K M × Answer K M)) : List M :=
  (record.filterMap fun | (.accept m, .accepted (.ok ())) => some m | _ => none).filter (rules.keyed k)

/-- The messages of a key that operations have handed out. -/
def releasedUnder (rules : Rules K M) (k : K) (record : List (Operation K M × Answer K M)) : List M :=
  (record.filterMap fun e => Barrier.handedOut (some e.2)).filter (rules.keyed k)

theorem acceptedUnder_append (rules : Rules K M) (k : K) (record record' : List (Operation K M × Answer K M)) :
    acceptedUnder rules k (record ++ record') = acceptedUnder rules k record ++ acceptedUnder rules k record' := by
  simp [acceptedUnder]

theorem releasedUnder_append (rules : Rules K M) (k : K) (record record' : List (Operation K M × Answer K M)) :
    releasedUnder rules k (record ++ record') = releasedUnder rules k record ++ releasedUnder rules k record' := by
  simp [releasedUnder]

theorem mem_acceptedUnder {rules : Rules K M} {k : K} {record : List (Operation K M × Answer K M)} {m : M}
    (h : m ∈ acceptedUnder rules k record) : rules.correlate m = .ok k ∧ ∃ e ∈ record, e.1 = .accept m := by
  obtain ⟨h, key⟩ := List.mem_filter.1 h
  refine ⟨Rules.keyed_iff.1 key, ?_⟩
  obtain ⟨e, he, hm⟩ := List.mem_filterMap.1 h
  refine ⟨e, he, ?_⟩
  split at hm
  · cases hm
    rfl
  · cases hm

theorem Rules.filter_keyed_one {rules : Rules K M} {m : M} {j : K} (key : rules.correlate m = .ok j) (k : K) :
    [m].filter (rules.keyed k) = if j = k then [m] else [] := by
  by_cases h : j = k <;> simp [Rules.keyed, key, h]

theorem Rules.filter_keyed_none {rules : Rules K M} {m : M} {f : Failure StrategyError} (key : rules.correlate m = .error f)
    (k : K) : [m].filter (rules.keyed k) = [] := by
  simp [Rules.keyed, key]

/-- A message with its key, if it has one. -/
def Rules.filed? (rules : Rules K M) (m : M) : Option (K × M) := (rules.correlate m).toOption.map (·, m)

/-- The messages of a key are those that are filed under it. -/
theorem filter_keyed (rules : Rules K M) (k : K) (ms : List M) :
    ms.filter (rules.keyed k) = underKey k (ms.filterMap rules.filed?) := by
  induction ms with
  | nil => rfl
  | cons m ms ih =>
    have split : (m :: ms).filter (rules.keyed k) = [m].filter (rules.keyed k) ++ ms.filter (rules.keyed k) :=
      List.filter_append [m] ms
    rw [split, ih]
    cases key : rules.correlate m with
    | error f =>
      have none : rules.filed? m = none := by rw [Rules.filed?, key]; rfl
      rw [List.filterMap_cons_none none, Rules.filter_keyed_none key, List.nil_append]
    | ok j =>
      have filed : rules.filed? m = some (j, m) := by rw [Rules.filed?, key]; rfl
      rw [List.filterMap_cons_some filed, Rules.filter_keyed_one key, ← underKey_one, ← underKey_append]
      rfl

omit [DecidableEq K] in
/-- Messages that stand under their keys are filed there. -/
theorem filterMap_filed {rules : Rules K M} {kms : List (K × M)} (keyed : ∀ km ∈ kms, rules.correlate km.2 = .ok km.1) :
    (kms.map Prod.snd).filterMap rules.filed? = kms := by
  rw [List.filterMap_map]
  conv_rhs => rw [← List.filterMap_some (l := kms)]
  refine List.filterMap_congr fun km mem => ?_
  rw [Function.comp_apply, Rules.filed?, keyed km mem]
  rfl

/-- The marked messages of a key, none if it has no group. -/
def GroupStore.marked (s : GroupStore K M) (k : K) : List M := ((s.group k).map (·.marked)).getD []

theorem GroupStore.marked_of_group {s : GroupStore K M} {k : K} {g : Group K M} (h : s.group k = some g) :
    s.marked k = g.marked := by
  simp [marked, h]

/-- A store without bound refuses nothing. -/
theorem GroupStore.add_ne_error {s : GroupStore K M} {now : Instant} {k : K} {m : M} {e : StoreError}
    (unbounded : s.capacity = 0) : s.add now k m ≠ .error e := by
  intro refused
  have free : s.full = false := by simp [full, unbounded]
  rw [add, free] at refused
  cases refused

theorem GroupStore.capacity_add {s t : GroupStore K M} {now : Instant} {k : K} {m : M} (h : s.add now k m = .ok t) :
    t.capacity = s.capacity := by
  unfold add at h
  split at h
  · cases h
  · cases h
    rfl

variable [BEq M]

namespace Barrier

/-! ## series of operations -/

/-- An operation with the clock by which it is served. -/
abbrev Served (K M : Type) := (Nat → Instant) × Operation K M

/-- What an operation answers. -/
def answer (b : Barrier K M) (o : Served K M) : Answer K M :=
  (b.runInTurn (onTime o.1) (Act.ofOperation b.rules b.table.policy o.2)).1

/-- What operations leave of a barrier that are served one after the other. -/
def after (b : Barrier K M) (ops : List (Served K M)) : Barrier K M := b.serve (ops.map fun o => (onTime o.1, o.2))

/-- The operations with their answers, in the order in which they are served. -/
def record : Barrier K M → List (Served K M) → List (Operation K M × Answer K M)
  | _, [] => []
  | b, o :: rest => (o.2, b.answer o) :: record (b.after [o]) rest

variable {b b' b'' : Barrier K M} {ops ops' : List (Served K M)}

theorem after_append : b.after (ops ++ ops') = (b.after ops).after ops' := by
  simp [after, serve]

theorem record_append : b.record (ops ++ ops') = b.record ops ++ (b.after ops).record ops' := by
  induction ops generalizing b with
  | nil => rfl
  | cons o rest ih =>
    rw [List.cons_append, record, ih, ← after_append]
    rfl

theorem operations_record : (b.record ops).map Prod.fst = ops.map Prod.snd := by
  induction ops generalizing b with
  | nil => rfl
  | cons o rest ih => rw [record, List.map_cons, ih, List.map_cons]

/-- What an operation may come to while no call on the store fails. -/
inductive Responds (b : Barrier K M) : Operation K M → Answer K M → Barrier K M → Prop where
  | unkeyed {m f} (key : b.rules.correlate m = .error f) :
    Responds b (.accept m) (.accepted (.error (f.map .correlation))) b
  | refused {m k now e b'} (key : b.rules.correlate m = .ok k) (add : b.store.add now k m = .error e)
    (leaves : b.Leaves b' (if b.table.policy = .validated ∧ b.store.group k = none then b.table.expel k
      else b.table.touch k) b.store b.stats []) : Responds b (.accept m) (.accepted (.error (.error (.store e)))) b'
  | accepted {m k now store b'} (key : b.rules.correlate m = .ok k) (add : b.store.add now k m = .ok store)
    (leaves : b.Leaves b' (b.table.touch k) store (b.stats.bump .accepted) [.accepted k m]) :
    Responds b (.accept m) (.accepted (.ok ())) b'
  | pulled {order clock a b'} (walks : Walks (onTime clock) (order.arrange b.table.keys) b a b') :
    Responds b (.pull order) (.pulled a) b'

theorem answer_accept (clock : Nat → Instant) (b : Barrier K M) (m : M) :
    b.answer (clock, .accept m) = .accepted (b.acceptInTurn (onTime clock) m).1 := by
  rw [answer, Act.ofOperation, runInTurn_map]
  rfl

theorem answer_pull (clock : Nat → Instant) (b : Barrier K M) (order : WalkOrder K) :
    b.answer (clock, .pull order) = .pulled (b.pullInTurn (onTime clock) order).1 := by
  rw [answer, Act.ofOperation, runInTurn_map]
  rfl

theorem after_accept (clock : Nat → Instant) (b : Barrier K M) (m : M) :
    b.after [(clock, .accept m)] = (b.acceptInTurn (onTime clock) m).2 := b.conduct_accept _ m

theorem after_pull (clock : Nat → Instant) (b : Barrier K M) (order : WalkOrder K) :
    b.after [(clock, .pull order)] = (b.pullInTurn (onTime clock) order).2 := b.conduct_pull _ order

theorem responds (b : Barrier K M) (o : Served K M) : b.Responds o.2 (b.answer o) (b.after [o]) := by
  obtain ⟨clock, op⟩ := o
  cases op with
  | accept m =>
    rw [answer_accept, after_accept]
    cases key : b.rules.correlate m with
    | error f =>
      rcases accept_cases (onTime clock) b m with ⟨f', key', -, done⟩ | ⟨k, -, -, key', -⟩
      · rw [key] at key'
        cases key'
        rw [done]
        exact .unkeyed key
      · rw [key] at key'
        cases key'
    | ok k =>
      cases add : b.store.add (clock 0) k m with
      | ok store =>
        obtain ⟨done, leaves⟩ := accept_added key add
        rw [done]
        exact .accepted key add leaves
      | error e =>
        obtain ⟨done, leaves⟩ := accept_refused key add
        rw [done]
        exact .refused key add leaves
  | pull order =>
    rw [answer_pull, after_pull]
    exact .pulled (walks_pullInTurn ..)

theorem Responds.rules {op : Operation K M} {a : Answer K M} (responds : b.Responds op a b') : b'.rules = b.rules := by
  cases responds with
  | unkeyed => rfl
  | refused _ _ leaves | accepted _ _ leaves => exact leaves.rules
  | pulled walks => exact walks.rules

theorem rules_after (b : Barrier K M) (ops : List (Served K M)) : (b.after ops).rules = b.rules := by
  induction ops generalizing b with
  | nil => rfl
  | cons o rest ih => exact (ih (b.after [o])).trans (b.responds o).rules

/-! ## what visits give -/

omit [BEq M] in
/-- What visits that have handed out `out` have made of the groups. -/
structure Gives (b b' : Barrier K M) (out : List (K × M)) : Prop where
  rules : b'.rules = b.rules
  /-- No group is new. -/
  grouped : ∀ k, (b'.store.group k).isSome → (b.store.group k).isSome
  unmarked : ∀ k, b.store.unmarked k = underKey k out ++ b'.store.unmarked k
  marked : b.rules.mode = .mark → ∀ k, (b'.store.group k).isSome → b'.store.marked k = b.store.marked k ++ underKey k out
  keyed : ∀ km ∈ out, b.rules.correlate km.2 = .ok km.1
  handed : b'.handed = b.handed ++ out
  kept : b'.store.WellKept b.rules.correlate

namespace Gives

variable {out out' : List (K × M)}

omit [BEq M]

theorem refl (kept : b.store.WellKept b.rules.correlate) : b.Gives b [] :=
  ⟨rfl, fun _ h => h, fun _ => rfl, fun _ _ _ => (List.append_nil _).symm, nofun, (List.append_nil _).symm, kept⟩

theorem trans (h : b.Gives b' out) (h' : b'.Gives b'' out') : b.Gives b'' (out ++ out') where
  rules := h'.rules.trans h.rules
  grouped k hk := h.grouped k (h'.grouped k hk)
  unmarked k := by rw [h.unmarked, h'.unmarked, underKey_append, List.append_assoc]
  marked mode k hk := by
    rw [h'.marked (h.rules ▸ mode) k hk, h.marked mode k (h'.grouped k hk), underKey_append, List.append_assoc]
  keyed km mem := by
    rcases List.mem_append.1 mem with mem | mem
    · exact h.keyed km mem
    · exact h.rules ▸ h'.keyed km mem
  handed := by rw [h'.handed, h.handed, List.append_assoc]
  kept := h.rules ▸ h'.kept

/-- Visits that leave the store as it is. -/
theorem of_store (kept : b.store.WellKept b.rules.correlate) (rules : b'.rules = b.rules) (store : b'.store = b.store)
    (handed : b'.handed = b.handed) : b.Gives b' [] where
  rules := rules
  grouped k h := store ▸ h
  unmarked k := by rw [store]; rfl
  marked _ k _ := by rw [store]; exact (List.append_nil _).symm
  keyed := nofun
  handed := handed.trans (List.append_nil _).symm
  kept := store ▸ kept

/-- What came out under a key. -/
theorem released (h : b.Gives b' out) (k : K) : (out.map Prod.snd).filter (b.rules.keyed k) = underKey k out := by
  rw [filter_keyed, filterMap_filed h.keyed]

end Gives

section Visits

variable [ReflBEq M] {envs : Nat → Surroundings} {k : K} {ks : List K}

theorem Visits.gives {a : Outcome (BarrierError K) (Visit M)} (kept : b.store.WellKept b.rules.correlate)
    (visits : b.Visits envs k a b') : b.Gives b' (given k a) := by
  cases visits with
  | failed _ leaves | held _ _ leaves | forgotten _ _ leaves | missed _ _ leaves =>
    exact .of_store kept leaves.rules leaves.store (leaves.handed.trans (List.append_nil _))
  | @released g now m rest _ group judged unmarked leaves =>
    obtain ⟨f, handOut, gives⟩ : ∃ f, b.store.handOut b.rules.mode k m = b.store.change k f ∧
      f g = g.give b.rules.mode m rest := GroupStore.handOut_eq_change _ unmarked _ _
    have key : b.rules.correlate m = .ok k :=
      (kept k g group).2 m (List.mem_append_left _ (unmarked ▸ List.mem_cons_self))
    have store : b'.store = b.store.change k f := leaves.store.trans handOut
    refine ⟨leaves.rules, fun j hj => ?_, fun j => ?_, fun mode j hj => ?_, fun km mem => ?_, leaves.handed, ?_⟩
    · rwa [store, GroupStore.isSome_group_change] at hj
    · rw [store]
      exact GroupStore.unmarked_change group unmarked (by rw [gives, Group.unmarked_give]) j
    · show b'.store.marked j = b.store.marked j ++ underKey j [(k, m)]
      rw [GroupStore.marked, leaves.store, GroupStore.group_handOut _ group unmarked, underKey_one]
      by_cases hk : k = j
      · subst hk
        rw [if_pos rfl, if_pos rfl, GroupStore.marked_of_group group, mode]
        rfl
      · rw [if_neg hk, if_neg hk, List.append_nil, GroupStore.marked]
    · cases List.mem_singleton.1 mem
      exact key
    · rw [leaves.store]
      cases b.rules.mode with
      | remove => exact kept.change (fun g => g.key_remove m) fun g x hx => Group.mem_remove hx
      | mark => exact kept.change (fun g => g.key_mark m) fun g x hx => Group.mem_mark hx
  | @drained g now _ group judged unmarked leaves =>
    have dropped (j : K) : b'.store.group j = if k = j then none else b.store.group j := by
      rw [leaves.store, GroupStore.group_dropGroup]
    have same {j : K} (hj : (b'.store.group j).isSome) : b'.store.group j = b.store.group j := by
      rw [dropped] at hj ⊢
      split at hj
      · cases hj
      · exact if_neg ‹_›
    refine ⟨leaves.rules, fun j hj => same hj ▸ hj, fun j => ?_, fun _ j hj => ?_, nofun, leaves.handed, ?_⟩
    · show b.store.unmarked j = b'.store.unmarked j
      rw [GroupStore.unmarked, GroupStore.unmarked, dropped]
      by_cases hk : k = j
      · subst hk
        rw [if_pos rfl, group, Option.map_some, unmarked]
        rfl
      · rw [if_neg hk]
    · rw [GroupStore.marked, same hj]
      exact (List.append_nil _).symm
    · rw [leaves.store]
      exact kept.dropGroup k

theorem Walks.gives {a : Outcome (BarrierError K) (Option M)} (kept : b.store.WellKept b.rules.correlate)
    (walks : Walks envs ks b a b') : ∃ out, b.Gives b' out ∧ out.map Prod.snd = brought a := by
  induction walks with
  | nil => exact ⟨[], .refl kept, rfl⟩
  | failed visit | released visit => exact ⟨_, visit.gives kept, rfl⟩
  | @onward k rest b v b₁ a b₂ visit nothing walk ih =>
    have first := visit.gives kept
    obtain ⟨out, further, brings⟩ := ih (first.rules ▸ first.kept)
    have silent : given k (.ok v : Outcome (BarrierError K) (Visit M)) = [] := by
      cases v with
      | released m => exact absurd rfl (nothing m)
      | _ => rfl
    rw [silent] at first
    exact ⟨out, first.trans further, brings⟩

theorem drain_gives (choices : List (Surroundings × WalkOrder K)) (b : Barrier K M)
    (kept : b.store.WellKept b.rules.correlate) :
    ∃ out, b.Gives (b.drain choices).2.2 out ∧ (b.drain choices).1 = out.map Prod.snd := by
  induction choices generalizing b with
  | nil => exact ⟨[], .refl kept, rfl⟩
  | cons c rest ih =>
    obtain ⟨env, order⟩ := c
    have walks := walks_pullInTurn (fun _ => env) order b
    rw [← pull_eq_pullInTurn] at walks
    obtain ⟨out, gives, brings⟩ := walks.gives kept
    rcases pulled : b.pull env order with ⟨f | (_ | m), b'⟩ <;> simp only [pulled] at gives brings <;>
      simp only [drain, pulled]
    · exact ⟨out, gives, brings.symm⟩
    · exact ⟨out, gives, brings.symm⟩
    · obtain ⟨out', gives', brings'⟩ := ih b' (gives.rules ▸ gives.kept)
      refine ⟨out ++ out', gives.trans gives', ?_⟩
      rw [List.map_append, brings, brings']
      rfl

end Visits

/-! ## what an operation does for a key -/

omit [BEq M] in
/-- What an operation with its answer does for a key. -/
structure Carries (k : K) (b : Barrier K M) (e : Operation K M × Answer K M) (b' : Barrier K M) : Prop where
  /-- What was unmarked and what goes in is what comes out and what is then unmarked. -/
  books : b.store.unmarked k ++ acceptedUnder b.rules k [e] = releasedUnder b.rules k [e] ++ b'.store.unmarked k
  /-- A group that stays or begins has marked what comes out. -/
  marked : b.rules.mode = .mark → (b'.store.group k).isSome →
    b'.store.marked k = b.store.marked k ++ releasedUnder b.rules k [e]
  /-- A group begins with a message. -/
  begins : b.store.group k = none → (b'.store.group k).isSome → acceptedUnder b.rules k [e] ≠ []

section Operations

variable [ReflBEq M] {k : K}

/-- An operation keeps every message under its key, and does for each key what it should. -/
theorem Responds.carries {op : Operation K M} {a : Answer K M} (kept : b.store.WellKept b.rules.correlate)
    (responds : b.Responds op a b') : b'.store.WellKept b.rules.correlate ∧ ∀ k, Carries k b (op, a) b' := by
  have idle {a : Answer K M} (store : b'.store = b.store) (none : ∀ k, acceptedUnder b.rules k [(op, a)] = [])
      (none' : ∀ k, releasedUnder b.rules k [(op, a)] = []) :
      b'.store.WellKept b.rules.correlate ∧ ∀ k, Carries k b (op, a) b' := by
    refine ⟨store ▸ kept, fun k => ⟨?_, fun _ _ => ?_, fun fresh some => ?_⟩⟩
    · rw [none, none', store]
      exact List.append_nil _
    · rw [none', store, List.append_nil]
    · rw [store, fresh] at some
      cases some
  cases responds with
  | unkeyed => exact idle rfl (fun _ => rfl) fun _ => rfl
  | refused _ _ leaves => exact idle leaves.store (fun _ => rfl) fun _ => rfl
  | @accepted m k now store _ key add leaves =>
    have goes (j : K) : acceptedUnder b.rules j [(.accept m, .accepted (.ok ()))] = underKey j [(k, m)] :=
      (Rules.filter_keyed_one key j).trans (underKey_one j k m).symm
    have group (j : K) : b'.store.group j = if k = j then
        some (((b.store.group k).getD { key := k, createdAt := now, updatedAt := now }).push now m)
        else b.store.group j := by
      rw [leaves.store]
      exact GroupStore.group_add add j
    refine ⟨leaves.store ▸ kept.add key add, fun j => ⟨?_, fun _ _ => ?_, fun fresh some => ?_⟩⟩
    · rw [goes, leaves.store]
      exact (GroupStore.unmarked_add add j).symm
    · show b'.store.marked j = b.store.marked j ++ []
      rw [List.append_nil, GroupStore.marked, group, GroupStore.marked]
      by_cases hk : k = j
      · subst hk
        rw [if_pos rfl]
        cases b.store.group k <;> rfl
      · rw [if_neg hk]
    · rw [goes, underKey_one]
      by_cases hk : k = j
      · rw [if_pos hk]
        exact List.cons_ne_nil _ _
      · rw [group, if_neg hk, fresh] at some
        cases some
  | @pulled order clock a _ walks =>
    obtain ⟨out, gives, brings⟩ := walks.gives kept
    have comes (j : K) : releasedUnder b.rules j [(.pull order, .pulled a)] = underKey j out := by
      rw [← gives.released j, brings]
      rcases a with f | (_ | m) <;> rfl
    refine ⟨gives.kept, fun j => ⟨?_, fun mode some => ?_, fun fresh some => ?_⟩⟩
    · rw [comes, ← gives.unmarked]
      exact List.append_nil _
    · rw [comes, gives.marked mode j some]
    · have before := gives.grouped j some
      rw [fresh] at before
      cases before

variable {rules : Rules K M} {policy : TokenPolicy} {capacity : Nat}

theorem wellKept_after (kept : b.store.WellKept b.rules.correlate) (ops : List (Served K M)) :
    (b.after ops).store.WellKept b.rules.correlate := by
  induction ops generalizing b with
  | nil => exact kept
  | cons o rest ih =>
    have responds := b.responds o
    have rules := responds.rules
    have kept' := (responds.carries kept).1
    rw [← rules] at kept' ⊢
    exact ih kept'

omit [BEq M] [ReflBEq M] in
theorem wellKept_new (rules : Rules K M) (policy : TokenPolicy) (capacity : Nat) :
    (new rules policy capacity).store.WellKept rules.correlate := by
  intro k g hg
  cases hg

/-- What the operation after a series does for a key. -/
theorem carries_answer (rules : Rules K M) (policy : TokenPolicy) (capacity : Nat) (ops : List (Served K M))
    (o : Served K M) (k : K) :
    let b := (new rules policy capacity).after ops
    b.rules = rules ∧ Carries k b (o.2, b.answer o) (b.after [o]) := by
  intro b
  have same : b.rules = rules := rules_after ..
  have kept : b.store.WellKept b.rules.correlate := by
    rw [same]
    exact wellKept_after (b := new rules policy capacity) (wellKept_new rules policy capacity) ops
  exact ⟨same, ((b.responds o).carries kept).2 k⟩

/-- Over a whole run, what went in under a key is what came out and what is unmarked, in this order. -/
theorem acceptedUnder_eq (rules : Rules K M) (policy : TokenPolicy) (capacity : Nat) (ops : List (Served K M))
    (k : K) : let b := new rules policy capacity
    acceptedUnder rules k (b.record ops) = releasedUnder rules k (b.record ops) ++ (b.after ops).store.unmarked k := by
  intro b
  induction ops using List.reverseRecOn with
  | nil => rfl
  | append_singleton ops o ih =>
    obtain ⟨same, carries⟩ := carries_answer rules policy capacity ops o k
    have books := carries.books
    rw [same] at books
    rw [record_append, acceptedUnder_append, releasedUnder_append, after_append, ih, List.append_assoc, List.append_assoc]
    exact congrArg _ books

/-- The group of `k` begins with the first of the operations `post`, which come after `pre`, and is there ever since. -/
def Life (b : Barrier K M) (k : K) (pre post : List (Served K M)) : Prop :=
  (b.after pre).store.group k = none ∧ ∀ p, p <+: post → p ≠ [] → ((b.after (pre ++ p)).store.group k).isSome

/-- A group that marks what it gives holds the messages that went in since it began, and has marked those that came
out. -/
theorem life_of_group (mode : rules.mode = .mark) (policy : TokenPolicy) (capacity : Nat) (ops : List (Served K M))
    {g : Group K M} (hg : ((new rules policy capacity).after ops).store.group k = some g) :
    let b := new rules policy capacity
    ∃ pre post, ops = pre ++ post ∧ b.Life k pre post ∧ g.marked = releasedUnder rules k ((b.after pre).record post) ∧
      g.marked ++ g.unmarked = acceptedUnder rules k ((b.after pre).record post) ∧ g.marked ++ g.unmarked ≠ [] := by
  intro b
  induction ops using List.reverseRecOn generalizing g with
  | nil => cases hg
  | append_singleton ops o ih =>
    obtain ⟨same, carries⟩ := carries_answer rules policy capacity ops o k
    rw [after_append] at hg
    have some : (((b.after ops).after [o]).store.group k).isSome := Option.isSome_of_eq_some hg
    have marked := carries.marked (by rw [same, mode]) some
    have books := carries.books
    rw [same, GroupStore.marked_of_group hg] at marked
    rw [same, GroupStore.unmarked_of_group hg] at books
    cases before : (b.after ops).store.group k with
    | none =>
      have begins := carries.begins before some
      have empty : (b.after ops).store.unmarked k = [] ∧ (b.after ops).store.marked k = [] := by
        rw [GroupStore.unmarked, GroupStore.marked, before]
        exact ⟨rfl, rfl⟩
      rw [empty.1, List.nil_append] at books
      rw [empty.2, List.nil_append] at marked
      rw [same, books] at begins
      refine ⟨ops, [o], rfl, ⟨before, fun p hp ne => ?_⟩, marked, ?_, marked ▸ begins⟩
      · rcases List.prefix_cons_iff.1 hp with rfl | ⟨q, rfl, hq⟩
        · exact absurd rfl ne
        · rw [List.prefix_nil.1 hq, after_append]
          exact some
      · rw [marked]
        exact books.symm
    | some g₀ =>
      obtain ⟨pre, post, rfl, ⟨absent, present⟩, given, held, nonempty⟩ := ih before
      rw [GroupStore.unmarked_of_group before] at books
      rw [GroupStore.marked_of_group before] at marked
      have content : g.marked ++ g.unmarked = (g₀.marked ++ g₀.unmarked) ++
          acceptedUnder rules k [(o.2, (b.after (pre ++ post)).answer o)] := by
        rw [marked, List.append_assoc, List.append_assoc, ← books]
      have later : (b.after pre).record (post ++ [o]) =
          (b.after pre).record post ++ [(o.2, (b.after (pre ++ post)).answer o)] := by
        rw [record_append, ← after_append]
        rfl
      refine ⟨pre, post ++ [o], List.append_assoc .., ⟨absent, fun p hp ne => ?_⟩, ?_, ?_, ?_⟩
      · rcases List.prefix_concat_iff.1 hp with rfl | hp
        · rw [← List.append_assoc, after_append]
          exact some
        · exact present p hp ne
      · rw [marked, given, later, releasedUnder_append]
      · rw [content, held, later, acceptedUnder_append]
      · rw [content]
        exact List.append_ne_nil_of_left_ne_nil nonempty _

end Operations

end Barrier

end CorrelationBarrier
