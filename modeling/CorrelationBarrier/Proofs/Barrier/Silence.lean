import CorrelationBarrier.Proofs.Barrier.Rejection
import CorrelationBarrier.Proofs.Barrier.Serving
import CorrelationBarrier.Proofs.Barrier.Verdicts

/-!
# Silence

Under a rule that waits until no message has come in for some time, a group lets its messages go only after this time, and
then without any further delay. What comes out of a group and what fails does not count as a message.

* `Barrier.admissions` — the messages that came in under a key, each with its instant; `Barrier.Dated` — every group bears
  the instant of the last of them; `Dated.serve` shows it after any operations, whichever calls on the store fail;
* `Barrier.timetable` — the stops of a pull with the numbers of the calls before them; `allowed_of_mem_timetable` — what is
  handed out or dropped at a stop is allowed at the instant of its second call;
* `Barrier.Resting` — some keys are all that is tracked, and all their groups have rested; `Resting.pull`;
* `Barrier.Drawn` — what a series of pulls makes of such a barrier; `Resting.drawn`;
* `released_after_silence` — the result.
-/

namespace CorrelationBarrier

variable {K M : Type}

theorem Group.updatedAt_give (mode : ReleaseMode) (m : M) (rest : List M) (g : Group K M) :
    (g.give mode m rest).updatedAt = g.updatedAt := by
  cases mode <;> rfl

variable [DecidableEq K] [BEq M]

namespace Barrier

/-! ## what came in, and when -/

/-- The message that an operation admits under a key, with the instant at which it is added. -/
def admission? (k : K) (b : Barrier K M) (envs : Nat → Surroundings) : Operation K M → Option (Instant × M)
  | .accept m =>
    match (b.acceptInTurn envs m).1 with
    | .ok () => if b.rules.keyed k m then some ((envs 0).now, m) else none
    | .error _ => none
  | .pull _ => none

/-- The messages that operations admit under a key which are served one after the other. -/
def admissions (k : K) : Barrier K M → List ((Nat → Surroundings) × Operation K M) → List (Instant × M)
  | _, [] => []
  | b, o :: rest => (b.admission? k o.1 o.2).toList ++ admissions k (b.conduct o.1 o.2) rest

variable {envs : Nat → Surroundings} {b b' : Barrier K M} {k : K}

theorem admission?_of_ok {m : M} {j : K} (key : b.rules.correlate m = .ok j) (accepted : (b.acceptInTurn envs m).1 = .ok ())
    (k : K) : b.admission? k envs (.accept m) = if j = k then some ((envs 0).now, m) else none := by
  rw [admission?, accepted, Rules.keyed, key]
  by_cases own : j = k <;> simp [own]

theorem admission?_of_error {m : M} {f : Failure (BarrierError K)} (refused : (b.acceptInTurn envs m).1 = .error f) (k : K) :
    b.admission? k envs (.accept m) = none := by
  rw [admission?, refused]

/-- What is admitted is added in the first call of an operation. -/
theorem exists_of_mem_admissions {ops : List ((Nat → Surroundings) × Operation K M)} {a : Instant × M}
    (mem : a ∈ b.admissions k ops) : ∃ o ∈ ops, a.1 = (o.1 0).now := by
  induction ops generalizing b with
  | nil => cases mem
  | cons o rest ih =>
    rcases List.mem_append.1 mem with first | later
    · obtain ⟨envs, op⟩ := o
      refine ⟨_, List.mem_cons_self, ?_⟩
      cases op with
      | pull order => cases first
      | accept m =>
        rw [admission?] at first
        split at first
        · split at first
          · rw [List.mem_singleton.1 first]
          · cases first
        · cases first
    · obtain ⟨o', mem', time⟩ := ih later
      exact ⟨o', List.mem_cons_of_mem _ mem', time⟩

section Dates

variable [ReflBEq M]

/-- A visit leaves no group but those that it has found, and does not date them anew. -/
theorem Visits.updatedAt {a : Outcome (BarrierError K) (Visit M)} {j : K} {g' : Group K M} (visits : b.Visits envs k a b')
    (left : b'.store.group j = some g') : ∃ g, b.store.group j = some g ∧ g'.updatedAt = g.updatedAt := by
  cases visits with
  | failed _ leaves | held _ _ leaves | forgotten _ _ leaves | missed _ _ leaves => exact ⟨g', leaves.store ▸ left, rfl⟩
  | @released g now m rest _ group _ unmarked leaves =>
    rw [leaves.store, GroupStore.group_handOut _ group unmarked] at left
    split at left
    · next own =>
      subst own
      cases left
      exact ⟨g, group, g.updatedAt_give ..⟩
    · exact ⟨g', left, rfl⟩
  | drained _ _ _ leaves =>
    rw [leaves.store, GroupStore.group_dropGroup] at left
    split at left
    · cases left
    · exact ⟨g', left, rfl⟩

theorem Walks.updatedAt {ks : List K} {a : Outcome (BarrierError K) (Option M)} {j : K} {g' : Group K M}
    (walks : Walks envs ks b a b') (left : b'.store.group j = some g') :
    ∃ g, b.store.group j = some g ∧ g'.updatedAt = g.updatedAt := by
  induction walks with
  | nil => exact ⟨g', left, rfl⟩
  | failed visit | released visit => exact visit.updatedAt left
  | onward visit _ _ ih =>
    obtain ⟨g₁, group₁, same₁⟩ := ih left
    obtain ⟨g, group, same⟩ := visit.updatedAt group₁
    exact ⟨g, group, same₁.trans same⟩

omit [BEq M] [ReflBEq M] in
/-- Every group bears the instant of the last message admitted under its key, and its unmarked messages are the last ones. -/
structure Dated (b : Barrier K M) (admitted : K → List (Instant × M)) : Prop where
  kept : b.store.WellKept b.rules.correlate
  updated : ∀ k g, b.store.group k = some g → (admitted k).getLast?.map Prod.fst = some g.updatedAt
  unmarked : ∀ k, b.store.unmarked k <:+ (admitted k).map Prod.snd

namespace Dated

variable {admitted : K → List (Instant × M)}

omit [BEq M] [ReflBEq M] in
theorem new (rules : Rules K M) (policy : TokenPolicy) (capacity : Nat) :
    (Barrier.new rules policy capacity).Dated fun _ => [] where
  kept := wellKept_new rules policy capacity
  updated _ _ group := by cases group
  unmarked _ := List.suffix_rfl

omit [BEq M] [ReflBEq M] in
theorem of_store (dated : b.Dated admitted) (rules : b'.rules = b.rules) (store : b'.store = b.store) :
    b'.Dated admitted := by
  obtain ⟨kept, updated, unmarked⟩ := dated
  rw [← rules, ← store] at kept
  rw [← store] at updated unmarked
  exact ⟨kept, updated, unmarked⟩

omit [BEq M] [ReflBEq M] in
theorem add {now : Instant} {m : M} {s : GroupStore K M} (dated : b.Dated admitted) (key : b.rules.correlate m = .ok k)
    (add : b.store.add now k m = .ok s) (rules : b'.rules = b.rules) (store : b'.store = s) :
    b'.Dated fun j => admitted j ++ (if k = j then some (now, m) else none).toList := by
  subst store
  refine ⟨?_, fun j g left => ?_, fun j => ?_⟩
  · rw [rules]
    exact dated.kept.add key add
  · rw [GroupStore.group_add add] at left
    by_cases own : k = j
    · rw [if_pos own] at left ⊢
      cases left
      rw [Option.toList_some, List.getLast?_concat]
      rfl
    · rw [if_neg own] at left ⊢
      rw [Option.toList_none, List.append_nil]
      exact dated.updated j g left
  · obtain ⟨before, split⟩ := dated.unmarked j
    rw [GroupStore.unmarked_add add, underKey_one, List.map_append, ← split]
    by_cases own : k = j
    · rw [if_pos own, if_pos own]
      exact ⟨before, List.append_assoc .. |>.symm⟩
    · rw [if_neg own, if_neg own]
      exact ⟨before, List.append_assoc .. |>.symm⟩

/-- Every operation keeps the dates, whichever of its calls on the store fail. -/
theorem conduct (dated : b.Dated admitted) (envs : Nat → Surroundings) (op : Operation K M) :
    (b.conduct envs op).Dated (fun k => admitted k ++ (b.admission? k envs op).toList) ∧
      (b.conduct envs op).rules = b.rules := by
  cases op with
  | accept m =>
    rw [conduct_accept]
    rcases accept_cases envs b m with ⟨f, -, -, refused⟩ | ⟨k, a, b', key, intakes, done⟩
    · have none (k : K) : b.admission? k envs (.accept m) = none := admission?_of_error (congrArg Prod.fst refused) k
      simp only [none, Option.toList_none, List.append_nil, refused]
      exact ⟨dated, trivial⟩
    · cases intakes with
      | added add leaves =>
        have one := admission?_of_ok key (congrArg Prod.fst done)
        simp only [one, done]
        exact ⟨dated.add key add leaves.rules leaves.store, leaves.rules⟩
      | kept _ _ leaves | withdrawn _ leaves =>
        have none (k : K) : b.admission? k envs (.accept m) = none := admission?_of_error (congrArg Prod.fst done) k
        simp only [none, Option.toList_none, List.append_nil, done]
        exact ⟨dated.of_store leaves.rules leaves.store, leaves.rules⟩
  | pull order =>
    rw [conduct_pull]
    have walks := walks_pullInTurn envs order b
    obtain ⟨out, gives, -⟩ := walks.gives dated.kept
    simp only [admission?, Option.toList_none, List.append_nil]
    refine ⟨⟨gives.rules ▸ gives.kept, fun k g' left => ?_, fun k => ?_⟩, walks.rules⟩
    · obtain ⟨g, group, same⟩ := walks.updatedAt left
      rw [same]
      exact dated.updated k g group
    · exact List.IsSuffix.trans ⟨_, (gives.unmarked k).symm⟩ (dated.unmarked k)

theorem serve (dated : b.Dated admitted) (ops : List ((Nat → Surroundings) × Operation K M)) :
    (b.serve ops).Dated (fun k => admitted k ++ b.admissions k ops) ∧ (b.serve ops).rules = b.rules := by
  induction ops generalizing b admitted with
  | nil =>
    simp only [admissions, List.append_nil]
    exact ⟨dated, rfl⟩
  | cons o rest ih =>
    obtain ⟨first, rules⟩ := dated.conduct o.1 o.2
    obtain ⟨later, rules'⟩ := ih first
    simp only [List.append_assoc] at later
    exact ⟨later, rules'.trans rules⟩

end Dated

end Dates

/-! ## stops with the numbers of their calls -/

/-- The stops at some keys with the numbers of the calls before them, until one fails or brings a message. -/
def rounds (envs : Nat → Surroundings) : List K → Barrier K M → Nat → List (Nat × Stop K M)
  | [], _, _ => []
  | k :: rest, b, n =>
    let (c, n') := b.stopAt envs k n
    (n, c) :: match c.outcome with
      | .error _ | .ok (.released _) => []
      | .ok _ => rounds envs rest c.left n'

/-- The stops of a pull with the numbers of the calls before them. -/
def timetable (envs : Nat → Surroundings) (order : WalkOrder K) (b : Barrier K M) : List (Nat × Stop K M) :=
  rounds envs (order.arrange b.table.keys) b 0

variable {ks : List K} {n n₀ : Nat} {c : Stop K M}

theorem map_rounds (envs : Nat → Surroundings) (ks : List K) (b : Barrier K M) (n : Nat) :
    (rounds envs ks b n).map Prod.snd = stops envs ks b n := by
  induction ks generalizing b n with
  | nil => rfl
  | cons k rest ih =>
    obtain ⟨a, b', n', stop, -⟩ := stopAt_cases envs b k n
    rw [rounds, stops, stop]
    rcases a with f | (m | _ | _ | _)
    · rfl
    · rfl
    all_goals exact congrArg (_ :: ·) (ih b' n')

theorem map_timetable (envs : Nat → Surroundings) (order : WalkOrder K) (b : Barrier K M) :
    (b.timetable envs order).map Prod.snd = b.tour envs order := map_rounds ..

theorem stopAt_of_mem_rounds (mem : (n, c) ∈ rounds envs ks b n₀) : (c.found.stopAt envs c.key n).1 = c := by
  induction ks generalizing b n₀ with
  | nil => cases mem
  | cons k rest ih =>
    rw [rounds] at mem
    rcases List.mem_cons.1 mem with first | later
    · cases first
      rfl
    · split at later
      · cases later
      · cases later
      · exact ih later

/-- A stop comes to what its visit does inside the section. -/
theorem outcome_stopAt (envs : Nat → Surroundings) (b : Barrier K M) (k : K) (n : Nat) : (b.stopAt envs k n).1.outcome =
    ((Act.visit b.rules b.table.policy k).run Shared.inTurn envs (b.inside k n)).1 := by
  obtain ⟨a, t, n', d, ran, -⟩ := visits_visit envs b k n
  have inSection := Program.run_section ran
  have stopped : (Act.stop b.rules b.table.policy k).run Shared.inTurn envs (b.solo n) = _ :=
    Program.run_bind Shared.inTurn envs (Program.within k (Act.visit b.rules b.table.policy k)) _ (b.solo n)
  rw [solo, inSection] at stopped
  rw [ran, stopAt, solo, stopped]
  rcases a with f | (m | _ | _ | _) <;> rfl

/-- Whether a visit hands out a message or drops the group. -/
def Stop.takes (c : Stop K M) : Prop := c.outcome = .ok .drained ∨ ∃ m, c.outcome = .ok (.released m)

/-- A stop takes something only if the rule allows it at the instant of its second call. -/
theorem allowed_of_takes (takes : (b.stopAt envs k n).1.takes) :
    ∃ g, b.store.group k = some g ∧ b.rules.release g (envs (n + 1)).now = .ok true := by
  rw [Stop.takes, outcome_stopAt] at takes
  unfold Act.visit inside at takes
  cases fault : (envs n).fault .group with
  | some fault' =>
    rw [Program.run_ask (Shared.read_of_fault fault)] at takes
    rcases takes with h | ⟨m, h⟩ <;> cases h
  | none =>
    rw [Program.run_ask (Shared.read_of_no_fault fault)] at takes
    cases group : b.shared.store.group k with
    | none =>
      rw [group] at takes
      cases policy : b.table.policy <;> rw [policy] at takes <;> rcases takes with h | ⟨m, h⟩ <;> cases h
    | some g =>
      have clock : (b.shared.noted .group k).perform (envs (n + 1)) .clock =
        ((envs (n + 1)).now, b.shared.noted .group k) := rfl
      rw [group] at takes
      dsimp only at takes
      rw [Program.run_ask clock] at takes
      refine ⟨g, group, ?_⟩
      rcases judged : b.rules.release g (envs (n + 1)).now with f | _ | _
      · rw [judged] at takes
        rcases takes with h | ⟨m, h⟩ <;> cases h
      · rw [judged] at takes
        rcases takes with h | ⟨m, h⟩ <;> cases h
      · rfl

theorem of_mem_timetable {order : WalkOrder K} (mem : (n, c) ∈ b.timetable envs order) : c ∈ b.tour envs order := by
  rw [← map_timetable]
  exact List.mem_map_of_mem (f := Prod.snd) mem

/-- What a pull takes at a stop is allowed by the group as the pull has found it, at the instant of the second call there. -/
theorem allowed_of_mem_timetable {order : WalkOrder K} (mem : (n, c) ∈ b.timetable envs order) (takes : c.takes) :
    ∃ g, b.store.group c.key = some g ∧ b.rules.release g (envs (n + 1)).now = .ok true := by
  have again := stopAt_of_mem_rounds mem
  rw [← again] at takes
  obtain ⟨g, group, allowed⟩ := allowed_of_takes takes
  obtain ⟨-, rules, found⟩ := mem_tour (of_mem_timetable mem)
  exact ⟨g, found ▸ group, rules ▸ allowed⟩

theorem key_of_mem_timetable {order : WalkOrder K} {m : M} (kept : b.store.WellKept b.rules.correlate)
    (mem : (n, c) ∈ b.timetable envs order) (released : c.outcome = .ok (.released m)) :
    b.rules.correlate m = .ok c.key := by
  obtain ⟨visits, -, found⟩ := mem_tour (of_mem_timetable mem)
  rw [released] at visits
  cases visits with
  | @released g _ _ rest _ group _ unmarked _ =>
    exact (kept c.key g (found ▸ group)).2 m (List.mem_append_left _ (unmarked ▸ List.mem_cons_self))

/-! ## groups that have rested -/

omit [BEq M] in
/-- All tracked keys are among `ks`, and those of `ks` that have a group are tracked. All these groups have rested for a span
of `d` at `t`. -/
structure Resting (d : Span) (t : Instant) (ks : List K) (b : Barrier K M) : Prop where
  rule : b.rules.release = .quietFor d
  kept : b.store.WellKept b.rules.correlate
  within : ∀ k ∈ b.pendingKeys, k ∈ ks
  rested : ∀ k ∈ ks, ∀ g, b.store.group k = some g → k ∈ b.pendingKeys ∧ g.updatedAt + d ≤ t

omit [BEq M] in
/-- The number of unmarked messages under some keys. -/
def load (b : Barrier K M) (ks : List K) : Nat := (ks.map fun k => (b.store.unmarked k).length).sum

/-- What pulls make of a barrier of which only the keys `ks` are tracked. -/
structure Drawn (ks : List K) (b : Barrier K M) (ops : List (Served K M)) : Prop where
  answers : ∀ e ∈ b.record ops, ∃ answer, e.2 = .pulled (.ok answer)
  ends : b.load ks < ops.length → ∃ e ∈ b.record ops, e.2 = .pulled (.ok none)
  /-- No group is new. -/
  grouped : ∀ k, ((b.after ops).store.group k).isSome → (b.store.group k).isSome
  empty : (∃ e ∈ b.record ops, e.2 = .pulled (.ok none)) → ∀ k ∈ ks, (b.after ops).store.group k = none
  elsewhere : ∀ k ∉ ks, (b.after ops).store.group k = b.store.group k
  books : ∀ k, b.store.unmarked k = releasedUnder b.rules k (b.record ops) ++ (b.after ops).store.unmarked k
  within : ∀ k ∈ (b.after ops).pendingKeys, k ∈ ks

variable {d : Span} {t : Instant} {clock : Nat → Instant}

omit [DecidableEq K] [BEq M] in
theorem quietFor_of_rested {g : Group K M} {now : Instant} (rested : g.updatedAt + d ≤ t) (late : t ≤ now) :
    ReleaseRule.quietFor d g now = .ok true := by
  have quiet : d ≤ Span.elapsed g.updatedAt now :=
    Nat.le_sub_of_add_le ((Nat.add_comm ..).trans_le (Nat.le_trans rested late))
  exact congrArg Except.ok (decide_eq_true quiet)

omit [BEq M] in
theorem load_of_gives {m : M} (nodup : ks.Nodup) (on : k ∈ ks) (gives : b.Gives b' [(k, m)]) :
    b.load ks = b'.load ks + 1 := by
  have others (j : K) (other : k ≠ j) : (b'.store.unmarked j).length = (b.store.unmarked j).length := by
    rw [gives.unmarked, underKey_one, if_neg other, List.nil_append]
  have own : (b.store.unmarked k).length = (b'.store.unmarked k).length + 1 := by
    rw [gives.unmarked, underKey_one, if_pos rfl, List.length_append, List.length_singleton, Nat.add_comm]
  have sum : b.load ks + (b'.store.unmarked k).length = b'.load ks + (b.store.unmarked k).length :=
    sum_map_change nodup on _ _ others
  omega

variable [ReflBEq M]

omit [BEq M] [ReflBEq M] in
theorem Resting.allowed {g : Group K M} {now : Instant} (resting : b.Resting d t ks) (on : k ∈ b.pendingKeys)
    (late : t ≤ now) (group : b.store.group k = some g) : b.rules.release g now = .ok true := by
  rw [resting.rule]
  exact quietFor_of_rested (resting.rested k (resting.within k on) g group).2 late

omit [BEq M] [ReflBEq M] in
/-- A key that a pull walks past although its group may release has no group any more. -/
theorem Passed.gone {now : Instant} (passed : b.Passed b' now k)
    (allowed : ∀ g, b.store.group k = some g → b.rules.release g now = .ok true) : b'.store.group k = none := by
  cases passed with
  | stale _ left | drained _ _ _ left => exact left
  | held group judged =>
    rw [allowed _ group] at judged
    cases judged

omit [BEq M] [ReflBEq M] in
/-- Where a pull ends at a key whose group may release, it hands out a message, and does not date the group anew. -/
theorem EndsAt.gives {now : Instant} {a : Outcome (BarrierError K) (Option M)} (endsAt : b.EndsAt b' now k a)
    (allowed : ∀ g, b.store.group k = some g → b.rules.release g now = .ok true) :
    ∃ g g' m, b.store.group k = some g ∧ m ∈ g.unmarked ∧ a = .ok (some m) ∧ b'.store.group k = some g' ∧
      g'.updatedAt = g.updatedAt ∧ b'.table.current k = b.table.current k := by
  cases endsAt with
  | failed group judged =>
    rw [allowed _ group] at judged
    cases judged
  | @released g m rest group _ unmarked left entry =>
    exact ⟨g, _, m, group, unmarked ▸ List.mem_cons_self, rfl, left, g.updatedAt_give .., entry⟩

omit [ReflBEq M] in
/-- A pull tracks no new key. -/
theorem mem_pendingKeys_of_pull {order : WalkOrder K} (on : k ∈ (b.pullInTurn envs order).2.pendingKeys) :
    k ∈ b.pendingKeys := by
  by_contra off
  have entry := ((walks_pullInTurn envs order b).elsewhere fun mem => off (order.mem_arrange.1 mem)).2
  rw [pendingKeys, LockTable.mem_keys_iff, entry, ← LockTable.mem_keys_iff] at on
  exact off on

/-- A pull from a barrier whose groups have rested does not fail. It hands out a message under one of the keys, or it leaves
none of their groups. -/
theorem Resting.pull (resting : b.Resting d t ks) (late : ∀ n, t ≤ clock n) (order : WalkOrder K) :
    ∃ answer out, (b.pullInTurn (onTime clock) order).1 = .ok answer ∧
      (b.pullInTurn (onTime clock) order).2.Resting d t ks ∧ b.Gives (b.pullInTurn (onTime clock) order).2 out ∧
      out.map Prod.snd = answer.toList ∧ (∀ km ∈ out, km.1 ∈ ks) ∧
      (answer = none → ∀ k ∈ ks, (b.pullInTurn (onTime clock) order).2.store.group k = none) := by
  obtain ⟨asked, walked, rest, split, times, passed, through, endsAt, others, -, rules, -⟩ :=
    pull_takes_first_ready b clock order
  obtain ⟨out, gives, brings⟩ := (walks_pullInTurn (onTime clock) order b).gives resting.kept
  have within (k : K) (on : k ∈ (b.pullInTurn (onTime clock) order).2.pendingKeys) : k ∈ b.pendingKeys :=
    mem_pendingKeys_of_pull on
  generalize (b.pullInTurn (onTime clock) order).1 = a at *
  generalize (b.pullInTurn (onTime clock) order).2 = b' at *
  have tracked {k : K} (on : k ∈ walked ++ rest) : k ∈ b.pendingKeys := order.mem_arrange.1 (split ▸ on)
  have allowed {k : K} (on : k ∈ walked ++ rest) (g : Group K M) (group : b.store.group k = some g) :
      b.rules.release g (asked k) = .ok true := by
    obtain ⟨n, time⟩ := times k
    exact resting.allowed (tracked on) (time ▸ late n) group
  have gone {k : K} (on : k ∈ walked) : b'.store.group k = none :=
    (passed k on).gone (allowed (List.mem_append_left _ on))
  have first {k : K} (on : k ∈ rest.head?) :=
    (endsAt k on).gives (allowed (List.mem_append_right _ (List.mem_of_mem_head? on)))
  -- a group that is left is one that the pull has not reached, or the one of which it has handed out a message
  have stays {k : K} {g' : Group K M} (left : b'.store.group k = some g') :
      b'.table.current k = b.table.current k ∧ ∃ g, b.store.group k = some g ∧ g'.updatedAt = g.updatedAt := by
    by_cases past : k ∈ walked
    · rw [gone past] at left
      cases left
    · by_cases here : k ∈ rest.head?
      · obtain ⟨g, g₁, m, group, -, -, left', same, entry⟩ := first here
        rw [left] at left'
        cases left'
        exact ⟨entry, g, group, same⟩
      · obtain ⟨group, entry⟩ := others k past here
        exact ⟨entry, g', group ▸ left, rfl⟩
  have resting' : b'.Resting d t ks := by
    refine ⟨rules ▸ resting.rule, gives.rules ▸ gives.kept, fun k on => resting.within k (within k on),
      fun k on g' left => ?_⟩
    obtain ⟨entry, g, group, same⟩ := stays left
    obtain ⟨mem, rested⟩ := resting.rested k on g group
    rw [pendingKeys, LockTable.mem_keys_iff, entry, ← LockTable.mem_keys_iff, same]
    exact ⟨mem, rested⟩
  cases rest with
  | nil =>
    cases through rfl
    refine ⟨none, out, rfl, resting', gives, brings, ?_, fun _ k on => ?_⟩
    · rw [List.map_eq_nil_iff.1 brings]
      exact fun km mem => by cases mem
    · by_contra left
      obtain ⟨g', left⟩ := Option.ne_none_iff_exists'.1 left
      obtain ⟨-, g, group, -⟩ := stays left
      have mem : k ∈ walked := by
        rw [← List.append_nil walked, ← split]
        exact order.mem_arrange.2 (resting.rested k on g group).1
      rw [gone mem] at left
      cases left
  | cons k rest =>
    obtain ⟨g, -, m, group, unmarked, rfl, -⟩ := first rfl
    refine ⟨some m, out, rfl, resting', gives, brings, fun km mem => ?_, fun none => by cases none⟩
    have here : km.2 = m := by
      have mem' := List.mem_map_of_mem (f := Prod.snd) mem
      rw [brings] at mem'
      exact List.mem_singleton.1 mem'
    have key := gives.keyed km mem
    have own := (resting.kept k g group).2 m (List.mem_append_left _ unmarked)
    rw [here, own] at key
    cases key
    exact resting.within _ (tracked (List.mem_append_right _ List.mem_cons_self))

/-- Pulls from a barrier whose groups have rested draw out all of them. -/
theorem Resting.drawn (resting : b.Resting d t ks) (nodup : ks.Nodup) (pulls : List ((Nat → Instant) × WalkOrder K))
    (late : ∀ p ∈ pulls, ∀ n, t ≤ p.1 n) : Drawn ks b (pulls.map fun p => (p.1, .pull p.2)) := by
  induction pulls generalizing b with
  | nil => exact ⟨nofun, fun enough => absurd enough (Nat.not_lt_zero _), fun _ h => h, nofun, fun _ _ => rfl, fun _ => rfl,
      resting.within⟩
  | cons p rest ih =>
    obtain ⟨clock, order⟩ := p
    obtain ⟨answer, out, answered, resting', gives, brings, keys, settles⟩ :=
      resting.pull (late (clock, order) List.mem_cons_self) order
    have drawn := ih resting' fun p mem => late p (List.mem_cons_of_mem _ mem)
    rw [← after_pull] at resting' gives settles drawn
    have replied : b.answer (clock, .pull order) = .pulled (.ok answer) := by rw [answer_pull, answered]
    have books (k : K) : releasedUnder b.rules k [(.pull order, .pulled (.ok answer))] = underKey k out := by
      rw [← gives.released k, brings]
      cases answer <;> rfl
    have fewer {m : M} (some : answer = some m) : b.load ks = (b.after [(clock, .pull order)]).load ks + 1 := by
      rw [some] at brings
      obtain ⟨⟨j, m'⟩, rfl, rfl⟩ := List.map_eq_singleton_iff.1 brings
      exact load_of_gives nodup (keys _ List.mem_cons_self) gives
    have away (k : K) (off : k ∉ ks) : (b.after [(clock, .pull order)]).store.group k = b.store.group k := by
      rw [after_pull]
      exact ((walks_pullInTurn (onTime clock) order b).elsewhere fun on =>
        off (resting.within k (order.mem_arrange.1 on))).1
    rw [List.map_cons]
    generalize rest.map (fun p => ((p.1, .pull p.2) : Served K M)) = ops at drawn ⊢
    refine ⟨fun e mem => ?_, fun enough => ?_, fun k some => gives.grouped k (drawn.grouped k some), ?_,
      fun k off => (drawn.elsewhere k off).trans (away k off), fun k => ?_, drawn.within⟩
    · rcases List.mem_cons.1 mem with rfl | later
      · exact ⟨answer, replied⟩
      · exact drawn.answers e later
    · cases answer with
      | none => exact ⟨_, List.mem_cons_self, replied⟩
      | some m =>
        rw [fewer rfl] at enough
        obtain ⟨e, later, none⟩ := drawn.ends (Nat.lt_of_succ_lt_succ enough)
        exact ⟨e, List.mem_cons_of_mem _ later, none⟩
    · rintro ⟨e, mem, none⟩ k on
      rcases List.mem_cons.1 mem with rfl | later
      · rw [replied] at none
        cases none
        have absent := settles rfl k on
        by_contra some
        have before := drawn.grouped k (Option.isSome_iff_ne_none.2 some)
        rw [absent] at before
        cases before
      · exact drawn.empty ⟨e, later, none⟩ k on
    · have onward := drawn.books k
      rw [gives.rules] at onward
      rw [gives.unmarked, onward, ← List.append_assoc, ← books, ← replied, ← releasedUnder_append]
      rfl

/-! ## the whole run -/

omit [DecidableEq K] [BEq M] [ReflBEq M] in
/-- The clock never goes back, neither from call to call nor from operation to operation. -/
def Forward (ops : List ((Nat → Surroundings) × Operation K M)) : Prop :=
  (∀ o ∈ ops, ∀ n n', n ≤ n' → (o.1 n).now ≤ (o.1 n').now) ∧
    ops.Pairwise fun o o' => ∀ n n', (o.1 n).now ≤ (o'.1 n').now

omit [BEq M] [ReflBEq M] in
/-- A group has a last message admitted under its key, and bears its instant. -/
theorem Dated.last {admitted : K → List (Instant × M)} (dated : b.Dated admitted) {g : Group K M}
    (group : b.store.group k = some g) : ∃ last, (admitted k).getLast? = some last ∧ last.1 = g.updatedAt :=
  Option.map_eq_some_iff.1 (dated.updated k g group)

/-- **Release after silence.** A barrier lets a group go once no message has come in for a span of `d`. Take any operations
one after the other, of which calls on the store may fail, over a store with any capacity and in either mode and policy.

* What is unmarked under a key is the last of what was admitted under it, and the rule asks how long ago the last admission
  was: what came out, what was refused and what failed does not count.
* While the clock never goes back, a pull that hands out a message of a key or drops its group does so when `d` has passed
  since the last admission under this key. The timetable of the pull lists its stops, each with the number `n` of the calls
  on the store and the clock before it, so that the calls at this stop come after the `n`-th one.
* If at `t` this long has passed for all groups under tracked keys, then no pull from `t` on fails, and with more pulls than
  there are messages one of them brings nothing. When this happens, all that was unmarked under each tracked key has been
  handed out in the order of its admission, and there is no group under a tracked key any more. -/
theorem released_after_silence (correlate : Correlation K M) (d : Span) (mode : ReleaseMode) (policy : TokenPolicy)
    (capacity : Nat) (ops : List ((Nat → Surroundings) × Operation K M)) :
    let rules : Rules K M := ⟨correlate, .quietFor d, mode⟩
    let start : Barrier K M := new rules policy capacity
    let b := start.serve ops
    (∀ k, b.store.unmarked k <:+ (start.admissions k ops).map Prod.snd ∧
      ∀ g, b.store.group k = some g → ∃ last, (start.admissions k ops).getLast? = some last ∧
        ∀ now, b.rules.release g now = .ok (decide (d ≤ Span.elapsed last.1 now))) ∧
    (∀ envs order, Forward (ops ++ [(envs, .pull order)]) →
      let stops := b.timetable envs order
      b.pullInTurn envs order = (bring (stops.map Prod.snd), b.arrive (stops.map Prod.snd)) ∧
      ∀ n c, (n, c) ∈ stops → c.takes →
        (∀ m, c.outcome = .ok (.released m) → correlate m = .ok c.key) ∧
        ∃ last, (start.admissions c.key ops).getLast? = some last ∧ ∀ i, n < i → last.1 + d ≤ (envs i).now) ∧
    ∀ t, (∀ k ∈ b.pendingKeys, (b.store.group k).isSome →
        ∀ last, (start.admissions k ops).getLast? = some last → last.1 + d ≤ t) →
      ∀ pulls : List ((Nat → Instant) × WalkOrder K), (∀ p ∈ pulls, ∀ n, t ≤ p.1 n) →
        let drain : List (Served K M) := pulls.map fun p => (p.1, .pull p.2)
        let b' := b.after drain
        (∀ e ∈ b.record drain, ∃ answer, e.2 = .pulled (.ok answer)) ∧
        (b.waiting < pulls.length → ∃ e ∈ b.record drain, e.2 = .pulled (.ok none)) ∧
        (∀ k ∉ b.pendingKeys, releasedUnder rules k (b.record drain) = [] ∧ b'.store.group k = b.store.group k) ∧
        ((∃ e ∈ b.record drain, e.2 = .pulled (.ok none)) →
          (∀ k ∈ b.pendingKeys, releasedUnder rules k (b.record drain) = b.store.unmarked k ∧ b'.store.group k = none) ∧
          ∀ k ∈ b'.pendingKeys, b'.store.group k = none) := by
  intro rules start b
  obtain ⟨dated, same⟩ : b.Dated (fun k => start.admissions k ops) ∧ b.rules = rules := (Dated.new ..).serve ops
  refine ⟨fun k => ⟨dated.unmarked k, fun g group => ?_⟩, fun envs order forward => ?_, fun t rested pulls late => ?_⟩
  · obtain ⟨last, at_end, time⟩ := dated.last group
    refine ⟨last, at_end, fun now => ?_⟩
    rw [same, time]
    rfl
  · intro stops
    refine ⟨?_, fun n c mem takes => ?_⟩
    · rw [map_timetable]
      exact pullInTurn_eq ..
    · obtain ⟨g, group, allowed⟩ := allowed_of_mem_timetable mem takes
      obtain ⟨last, at_end, time⟩ := dated.last group
      refine ⟨fun m released => ?_, last, at_end, fun i later => ?_⟩
      · have key := key_of_mem_timetable dated.kept mem released
        rwa [same] at key
      · obtain ⟨steady, apart⟩ := forward
        obtain ⟨o, before, admitted⟩ := exists_of_mem_admissions (List.mem_of_getLast? at_end)
        have ahead : last.1 ≤ (envs (n + 1)).now :=
          admitted ▸ (List.pairwise_append.1 apart).2.2 o before _ List.mem_cons_self 0 (n + 1)
        have onward : (envs (n + 1)).now ≤ (envs i).now :=
          steady (envs, .pull order) (List.mem_append_right _ List.mem_cons_self) (n + 1) i later
        rw [same] at allowed
        have quiet : d ≤ (envs (n + 1)).now - last.1 := time ▸ of_decide_eq_true (Except.ok.inj allowed)
        rw [Nat.add_comm]
        exact Nat.le_trans (Nat.add_le_of_le_sub ahead quiet) onward
  · intro drain b'
    have resting : b.Resting d t b.pendingKeys := by
      refine ⟨by rw [same], dated.kept, fun _ on => on, fun k on g group => ⟨on, ?_⟩⟩
      obtain ⟨last, at_end, time⟩ := dated.last group
      exact time ▸ rested k on (Option.isSome_of_eq_some group) last at_end
    have drawn := resting.drawn b.table.keys_nodup pulls late
    have books := drawn.books
    rw [same] at books
    refine ⟨drawn.answers, fun enough => drawn.ends ?_, fun k off => ⟨?_, drawn.elsewhere k off⟩, fun none =>
      ⟨fun k on => ⟨?_, drawn.empty none k on⟩, fun k on => drawn.empty none k (drawn.within k on)⟩⟩
    · rw [List.length_map]
      exact enough
    · have own := books k
      rw [GroupStore.unmarked, GroupStore.unmarked, drawn.elsewhere k off] at own
      exact List.self_eq_append_left.1 own
    · have spent : b'.store.unmarked k = [] := by
        rw [GroupStore.unmarked, drawn.empty none k on]
        rfl
      have own := books k
      rw [spent, List.append_nil] at own
      exact own.symm

/-- A message is refused, a pull fails, and one key gives its first message. What is left of it waits since its second
message came, and what is under another key since a later one did. -/
theorem released_after_silence_of_three :
    let steady (now : Instant) : Nat → Surroundings := fun _ => { now := now }
    let failing : Nat → Surroundings := fun _ => { now := 8, fault := fun _ => some (.fails "down") }
    let ops : List ((Nat → Surroundings) × Operation Nat Nat) := [(steady 0, .accept 1), (steady 3, .accept 3),
      (steady 4, .accept 5), (failing, .pull .asListed), (steady 9, .pull .asListed), (steady 10, .accept 2)]
    let start : Barrier Nat Nat := new ⟨fun m => .ok (m % 2), .quietFor 5, .remove⟩ .validated 2
    let b := start.serve ops
    let pulls : List ((Nat → Instant) × WalkOrder Nat) := List.replicate 3 (fun _ => 15, .asListed)
    let drain : List (Served Nat Nat) := pulls.map fun p => (p.1, .pull p.2)
    b.pendingKeys = [1, 0] ∧ start.admissions 1 ops = [(0, 1), (3, 3)] ∧ start.admissions 0 ops = [(10, 2)] ∧
      (∃ c, (0, c) ∈ b.timetable (steady 12) .asListed ∧ c.outcome = .ok (.released 3) ∧
        ∃ last, (start.admissions c.key ops).getLast? = some last ∧ last.1 + 5 ≤ 12) ∧
      (∃ e ∈ b.record drain, e.2 = .pulled (.ok none)) ∧
      releasedUnder start.rules 1 (b.record drain) = [3] ∧ releasedUnder start.rules 0 (b.record drain) = [2] ∧
      ∀ k ∈ (b.after drain).pendingKeys, (b.after drain).store.group k = none := by
  intro steady failing ops start b pulls drain
  have tracked : b.pendingKeys = [1, 0] := by decide
  have one : start.admissions 1 ops = [(0, 1), (3, 3)] := by decide
  have two : start.admissions 0 ops = [(10, 2)] := by decide
  have few : b.waiting < 3 := by decide
  have left : b.store.unmarked 1 = [3] ∧ b.store.unmarked 0 = [2] := by decide
  have forward : Forward (ops ++ [(steady 12, .pull .asListed)]) := by
    simp [Forward, ops, steady, failing]
  have stops : (b.timetable (steady 12) .asListed).map (fun p => (p.1, p.2.outcome)) = [(0, .ok (.released 3))] := by
    decide +kernel
  obtain ⟨⟨n, c⟩, first, same⟩ := List.mem_map.1 (stops ▸ List.mem_cons_self)
  obtain ⟨rfl, outcome⟩ := Prod.mk.inj same
  obtain ⟨-, takes, draws⟩ := released_after_silence (fun m => .ok (m % 2)) 5 .remove .validated 2 ops
  obtain ⟨-, last, at_end, quiet⟩ := (takes (steady 12) .asListed forward).2 0 c first (.inr ⟨3, outcome⟩)
  have rested : ∀ k ∈ b.pendingKeys, (b.store.group k).isSome →
      ∀ last, (start.admissions k ops).getLast? = some last → last.1 + 5 ≤ 15 := by
    rw [tracked]
    intro k mem _ last at_end
    rcases List.mem_pair.1 mem with rfl | rfl
    · rw [one] at at_end
      cases at_end
      decide
    · rw [two] at at_end
      cases at_end
      decide
  have late : ∀ p ∈ pulls, ∀ n, 15 ≤ p.1 n := fun p mem n => by rw [List.eq_of_mem_replicate mem]
  obtain ⟨-, ends, -, settles⟩ := draws 15 rested pulls late
  have none := ends few
  obtain ⟨gives, gone⟩ := settles none
  exact ⟨tracked, one, two, ⟨c, first, outcome, last, at_end, quiet 1 Nat.one_pos⟩, none,
    (gives 1 (by rw [tracked]; decide)).1.trans left.1, (gives 0 (by rw [tracked]; decide)).1.trans left.2, gone⟩

end Barrier

end CorrelationBarrier
