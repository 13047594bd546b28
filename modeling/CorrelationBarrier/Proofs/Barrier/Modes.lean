import CorrelationBarrier.Proofs.Barrier.Serving

/-!
# Barriers that mark what they give and barriers that remove it

A message that is handed out stays marked in its group, or leaves it. As long as the release rule does not look at marked
messages, this makes no other difference.

* `ReleaseRule.LooksAtUnmarked` — a rule that looks at the key and the unmarked messages of a group only;
* `GroupStore.Strips` — two stores that differ in marked messages and in times only; adding, handing out and dropping keep
  them so;
* `Barrier.Twins` — what the two barriers have in common; `Twins.visit`, `Twins.walk` and `Twins.respond` keep it;
* `modes_agree` — the result.
-/

namespace CorrelationBarrier

variable {K M : Type}

/-- A release rule that looks at the key and the unmarked messages of a group only. -/
def ReleaseRule.LooksAtUnmarked (release : ReleaseRule K M) : Prop :=
  ∀ g g' now now', g'.key = g.key → g'.unmarked = g.unmarked → release g' now' = release g now

/-- The group `g'` has the key and the unmarked messages of `g`, and nothing marked. -/
structure Group.Strips (g g' : Group K M) : Prop where
  key : g'.key = g.key
  unmarked : g'.unmarked = g.unmarked
  bare : g'.marked = []

variable [DecidableEq K]

/-! ## stores -/

namespace GroupStore

/-- Two stores without bound that have the same groups in the same order, those of the second without marked messages. -/
structure Strips (s s' : GroupStore K M) : Prop where
  unbounded : s.capacity = 0
  unbounded' : s'.capacity = 0
  keys : s'.groups.keys = s.groups.keys
  groups : ∀ k, Option.Rel Group.Strips (s.group k) (s'.group k)

namespace Strips

variable {s s' t t' : GroupStore K M} {k : K} {g : Group K M}

theorem empty : (GroupStore.empty 0 : GroupStore K M).Strips (.empty 0) := ⟨rfl, rfl, rfl, fun _ => .none⟩

/-- A key has a group in both stores, or in none. -/
theorem at_key (strips : s.Strips s') (k : K) : s.group k = none ∧ s'.group k = none ∨
    ∃ g g', s.group k = some g ∧ s'.group k = some g' ∧ g.Strips g' := by
  have related := strips.groups k
  cases group : s.group k with
  | none =>
    cases group' : s'.group k with
    | none => exact .inl ⟨rfl, rfl⟩
    | some g' =>
      rw [group, group'] at related
      cases related
  | some g =>
    cases group' : s'.group k with
    | none =>
      rw [group, group'] at related
      cases related
    | some g' =>
      rw [group, group'] at related
      cases related with
      | some bare => exact .inr ⟨g, g', rfl, rfl, bare⟩

theorem group_of_some (strips : s.Strips s') (group : s.group k = some g) :
    ∃ g', s'.group k = some g' ∧ g.Strips g' := by
  rcases strips.at_key k with ⟨none, -⟩ | ⟨g₀, g', group₀, group', bare⟩
  · rw [group] at none
    cases none
  · rw [group] at group₀
    cases group₀
    exact ⟨g', group', bare⟩

theorem bare (strips : s.Strips s') (group' : s'.group k = some g) : g.marked = [] := by
  rcases strips.at_key k with ⟨-, none⟩ | ⟨g₀, g', -, group, alike⟩
  · rw [group'] at none
    cases none
  · rw [group'] at group
    cases group
    exact alike.bare

theorem unmarked (strips : s.Strips s') (k : K) : s'.unmarked k = s.unmarked k := by
  rcases strips.at_key k with ⟨none, none'⟩ | ⟨g, g', group, group', bare⟩
  · rw [GroupStore.unmarked, GroupStore.unmarked, none, none']
  · rw [unmarked_of_group group, unmarked_of_group group', bare.unmarked]

theorem add {now now' : Instant} {m : M} (strips : s.Strips s') (h : s.add now k m = .ok t)
    (h' : s'.add now' k m = .ok t') : t.Strips t' := by
  have groups {s t : GroupStore K M} {now : Instant} (h : s.add now k m = .ok t) : ∃ g, t.groups = s.groups.set k g := by
    unfold GroupStore.add at h
    split at h
    · cases h
    · cases h
      exact ⟨_, rfl⟩
  obtain ⟨g, groups₀⟩ := groups h
  obtain ⟨g', groups'⟩ := groups h'
  refine ⟨(capacity_add h).trans strips.unbounded, (capacity_add h').trans strips.unbounded', ?_, fun j => ?_⟩
  · rw [groups₀, groups']
    exact Assoc.keys_set_congr strips.keys ..
  · rw [group_add h, group_add h']
    by_cases hk : k = j
    · subst hk
      rw [if_pos rfl, if_pos rfl]
      rcases strips.at_key k with ⟨none, none'⟩ | ⟨g, g', group, group', bare⟩
      · rw [none, none']
        exact .some ⟨rfl, rfl, rfl⟩
      · rw [group, group']
        exact .some ⟨bare.key, congrArg (· ++ [m]) bare.unmarked, bare.bare⟩
    · rw [if_neg hk, if_neg hk]
      exact strips.groups j

/-- Changes that agree on the group of a key. -/
theorem change {g g' : Group K M} {f f' : Group K M → Group K M} (strips : s.Strips s') (group : s.group k = some g)
    (group' : s'.group k = some g') (bare : (f g).Strips (f' g')) : (s.change k f).Strips (s'.change k f') where
  unbounded := (capacity_change ..).trans strips.unbounded
  unbounded' := (capacity_change ..).trans strips.unbounded'
  keys := by rw [keys_change group, keys_change group', strips.keys]
  groups j := by
    rw [group_change, group_change]
    by_cases hk : k = j
    · rw [if_pos hk, if_pos hk, group, group']
      exact .some bare
    · rw [if_neg hk, if_neg hk]
      exact strips.groups j

theorem dropGroup (strips : s.Strips s') (group : s.group k = some g) : (s.dropGroup k).Strips (s'.dropGroup k) := by
  obtain ⟨g', group', -⟩ := strips.group_of_some group
  refine ⟨(capacity_dropGroup ..).trans strips.unbounded, (capacity_dropGroup ..).trans strips.unbounded', ?_, fun j => ?_⟩
  · rw [keys_dropGroup group, keys_dropGroup group', strips.keys]
  · rw [group_dropGroup, group_dropGroup]
    by_cases hk : k = j
    · rw [if_pos hk, if_pos hk]
      exact .none
    · rw [if_neg hk, if_neg hk]
      exact strips.groups j

/-- Handing out marks a message in the one store and removes it from the other. -/
theorem handOut [BEq M] [ReflBEq M] {m : M} {rest : List M} (strips : s.Strips s') (group : s.group k = some g)
    (unmarked : g.unmarked = m :: rest) : (s.handOut .mark k m).Strips (s'.handOut .remove k m) := by
  obtain ⟨g', group', bare⟩ := strips.group_of_some group
  obtain ⟨f, marks, gives⟩ := handOut_eq_change .mark unmarked s k
  obtain ⟨f', removes, gives'⟩ := handOut_eq_change .remove (bare.unmarked.trans unmarked) s' k
  rw [marks, removes]
  refine strips.change group group' ?_
  rw [gives, gives']
  exact ⟨bare.key, rfl, bare.bare⟩

end Strips

end GroupStore

/-! ## barriers -/

namespace Barrier

/-- The barrier `r` is as `m` is, but it removes what it gives, and `m` marks it. -/
structure Twins (m r : Barrier K M) : Prop where
  correlate : r.rules.correlate = m.rules.correlate
  release : r.rules.release = m.rules.release
  looks : m.rules.release.LooksAtUnmarked
  marks : m.rules.mode = .mark
  removes : r.rules.mode = .remove
  table : r.table = m.table
  store : m.store.Strips r.store
  stats : r.stats = m.stats

namespace Twins

variable {m r m' r' : Barrier K M} {k : K} {ks : List K} {clock clock' : Nat → Instant}

/-- Operations that do the same to both tables and both counts. -/
theorem after {table : LockTable K} {store store' : GroupStore K M} {stats : Stats} {es es' : List (Event K M)}
    (twins : Twins m r) (leaves : m.Leaves m' table store stats es) (leaves' : r.Leaves r' table store' stats es')
    (strips : store.Strips store') : Twins m' r' where
  correlate := by rw [leaves.rules, leaves'.rules, twins.correlate]
  release := by rw [leaves.rules, leaves'.rules, twins.release]
  looks := leaves.rules ▸ twins.looks
  marks := by rw [leaves.rules, twins.marks]
  removes := by rw [leaves'.rules, twins.removes]
  table := by rw [leaves.table, leaves'.table]
  store := by rw [leaves.store, leaves'.store]; exact strips
  stats := by rw [leaves.stats, leaves'.stats]

variable [BEq M]

theorem agree {a a' : Outcome (BarrierError K) (Visit M)} (twins : Twins m r)
    (visits : m.Visits (onTime clock) k a m') (visits' : r.Visits (onTime clock') k a' r') : a' = a := by
  rcases twins.store.at_key k with ⟨none, none'⟩ | ⟨g, g', group, group', bare⟩
  · rw [visits.stale_of_none none, visits'.stale_of_none none']
  · have judges (now : Instant) : m.rules.release g now = m.rules.release g 0 := twins.looks g g 0 now rfl rfl
    have judges' (now : Instant) : r.rules.release g' now = m.rules.release g 0 := by
      rw [twins.release]
      exact twins.looks g g' 0 now bare.key bare.unmarked
    rw [Matches.verdict_of_visits group judges visits, Matches.verdict_of_visits group' judges' visits']
    unfold Matches.verdict
    rw [bare.unmarked]

variable [ReflBEq M]

theorem visit {a a' : Outcome (BarrierError K) (Visit M)} (twins : Twins m r)
    (visits : m.Visits (onTime clock) k a m') (visits' : r.Visits (onTime clock') k a' r') : a' = a ∧ Twins m' r' := by
  have agree := twins.agree visits visits'
  subst agree
  refine ⟨rfl, ?_⟩
  cases visits with
  | failed _ leaves =>
    cases visits' with
    | failed _ leaves' => exact twins.after leaves (twins.table ▸ twins.stats ▸ leaves') twins.store
  | held _ _ leaves =>
    cases visits' with
    | held _ _ leaves' => exact twins.after leaves (twins.table ▸ twins.stats ▸ leaves') twins.store
  | released group _ unmarked leaves =>
    cases visits' with
    | released _ _ _ leaves' =>
      rw [twins.marks] at leaves
      rw [twins.removes, twins.table, twins.stats] at leaves'
      exact twins.after leaves leaves' (twins.store.handOut group unmarked)
  | drained group _ _ leaves =>
    cases visits' with
    | drained _ _ _ leaves' =>
      rw [twins.table, twins.stats] at leaves'
      exact twins.after leaves leaves' (twins.store.dropGroup group)
  | forgotten validated _ leaves =>
    cases visits' with
    | forgotten _ _ leaves' => exact twins.after leaves (twins.table ▸ twins.stats ▸ leaves') twins.store
    | missed tolerant =>
      rw [twins.table, validated] at tolerant
      cases tolerant
  | missed tolerant _ leaves =>
    cases visits' with
    | forgotten validated =>
      rw [twins.table, tolerant] at validated
      cases validated
    | missed _ _ leaves' => exact twins.after leaves (twins.table ▸ twins.stats ▸ leaves') twins.store

theorem walk {a a' : Outcome (BarrierError K) (Option M)} (twins : Twins m r) (walks : Walks (onTime clock) ks m a m')
    (walks' : Walks (onTime clock') ks r a' r') : a' = a ∧ Twins m' r' := by
  induction walks generalizing r with
  | nil =>
    cases walks' with
    | nil => exact ⟨rfl, twins⟩
  | failed visit =>
    cases walks' with
    | failed visit' =>
      obtain ⟨same, twins⟩ := twins.visit visit visit'
      cases same
      exact ⟨rfl, twins⟩
    | released visit' | onward visit' =>
      cases (twins.visit visit visit').1
  | released visit =>
    cases walks' with
    | failed visit' => cases (twins.visit visit visit').1
    | released visit' =>
      obtain ⟨same, twins⟩ := twins.visit visit visit'
      cases same
      exact ⟨rfl, twins⟩
    | onward visit' nothing' =>
      cases (twins.visit visit visit').1
      exact absurd rfl (nothing' _)
  | onward visit nothing _ ih =>
    cases walks' with
    | failed visit' => cases (twins.visit visit visit').1
    | released visit' =>
      cases (twins.visit visit visit').1
      exact absurd rfl (nothing _)
    | onward visit' _ walk' => exact ih (twins.visit visit visit').2 walk'

theorem respond {op : Operation K M} {a a' : Answer K M} (twins : Twins m r) (responds : m.Responds op a m')
    (responds' : r.Responds op a' r') : a' = a ∧ Twins m' r' := by
  cases responds with
  | refused _ add => exact absurd add (GroupStore.add_ne_error twins.store.unbounded)
  | unkeyed key =>
    cases responds' with
    | refused _ add => exact absurd add (GroupStore.add_ne_error twins.store.unbounded')
    | unkeyed key' =>
      rw [twins.correlate, key] at key'
      cases key'
      exact ⟨rfl, twins⟩
    | accepted key' =>
      rw [twins.correlate, key] at key'
      cases key'
  | accepted key add leaves =>
    cases responds' with
    | refused _ add => exact absurd add (GroupStore.add_ne_error twins.store.unbounded')
    | unkeyed key' =>
      rw [twins.correlate, key] at key'
      cases key'
    | accepted key' add' leaves' =>
      rw [twins.correlate, key] at key'
      cases key'
      rw [twins.table, twins.stats] at leaves'
      exact ⟨rfl, twins.after leaves leaves' (twins.store.add add add')⟩
  | pulled walks =>
    cases responds' with
    | pulled walks' =>
      rw [twins.table] at walks'
      obtain ⟨rfl, twins⟩ := twins.walk walks walks'
      exact ⟨rfl, twins⟩

/-- The same operations on both, each by a clock of its own. -/
theorem run (twins : Twins m r) (ops : List ((Nat → Instant) × (Nat → Instant) × Operation K M)) :
    r.record (ops.map fun o => (o.2.1, o.2.2)) = m.record (ops.map fun o => (o.1, o.2.2)) ∧
      Twins (m.after (ops.map fun o => (o.1, o.2.2))) (r.after (ops.map fun o => (o.2.1, o.2.2))) := by
  induction ops generalizing m r with
  | nil => exact ⟨rfl, twins⟩
  | cons o rest ih =>
    obtain ⟨same, twins⟩ := twins.respond (m.responds (o.1, o.2.2)) (r.responds (o.2.1, o.2.2))
    obtain ⟨record, twins⟩ := ih twins
    refine ⟨?_, twins⟩
    rw [List.map_cons, List.map_cons, Barrier.record, Barrier.record, same, record]

end Twins

/-- **The modes agree.** The same operations, one after the other, on a barrier that marks what it gives and on one that
removes it, both over a store without bound, where the release rule looks at the key and the unmarked messages of a group
only: after any number of operations all answers were the same, failures included, and both have the same tracked keys, the
same groups with the same unmarked messages, and the same counters. The groups of the second barrier never have a marked
message. A group of the first has marked exactly what was released from it since it began, in the order of release. -/
theorem modes_agree [BEq M] [ReflBEq M] (rules : Rules K M) (looks : rules.release.LooksAtUnmarked) (policy : TokenPolicy)
    (ops : List ((Nat → Instant) × (Nat → Instant) × Operation K M)) :
    let marking : Barrier K M := .new { rules with mode := .mark } policy
    let removing : Barrier K M := .new { rules with mode := .remove } policy
    let left := ops.map fun o => (o.1, o.2.2)
    let right := ops.map fun o => (o.2.1, o.2.2)
    let m := marking.after left
    let r := removing.after right
    removing.record right = marking.record left ∧
    r.pendingKeys = m.pendingKeys ∧
    r.store.groups.keys = m.store.groups.keys ∧
    (∀ k, r.store.unmarked k = m.store.unmarked k) ∧
    r.stats = m.stats ∧
    (∀ k g, r.store.group k = some g → g.marked = []) ∧
    ∀ k g, m.store.group k = some g → ∃ pre post, left = pre ++ post ∧ marking.Life k pre post ∧
      g.marked = releasedUnder rules k ((marking.after pre).record post) := by
  intro marking removing left right m r
  have start : Twins marking removing := ⟨rfl, rfl, looks, rfl, rfl, rfl, .empty, rfl⟩
  obtain ⟨record, twins⟩ := start.run ops
  refine ⟨record, congrArg LockTable.keys twins.table, twins.store.keys, twins.store.unmarked, twins.stats,
    fun k g group => ?_, fun k g group => ?_⟩
  · exact twins.store.bare group
  · obtain ⟨pre, post, split, life, given, -⟩ := life_of_group rfl policy 0 left group
    exact ⟨pre, post, split, life, given⟩

/-- Of two messages the first is handed out, and stays marked in the one barrier. -/
theorem modes_agree_on_three_operations :
    let rules : Rules Nat Nat := ⟨fun m => .ok (m % 2), .always, .mark⟩
    let ops : List ((Nat → Instant) × (Nat → Instant) × Operation Nat Nat) :=
      [(fun n => n, fun _ => 5, .accept 0), (fun n => n, fun _ => 6, .accept 2), (fun n => n, fun _ => 7, .pull .asListed)]
    let left := ops.map fun o => (o.1, o.2.2)
    let right := ops.map fun o => (o.2.1, o.2.2)
    rules.release.LooksAtUnmarked ∧
      (new { rules with mode := .remove }).record right = (new { rules with mode := .mark }).record left ∧
      ((new { rules with mode := .mark }).after left).store.group 0 = some ⟨0, [2], [0], 0, 0⟩ ∧
      ((new { rules with mode := .remove }).after right).store.group 0 = some ⟨0, [2], [], 5, 6⟩ := by
  intro rules ops left right
  have looks : rules.release.LooksAtUnmarked := fun _ _ _ _ _ _ => rfl
  obtain ⟨record, -⟩ := modes_agree rules looks .validated ops
  exact ⟨looks, record, by cbv, by cbv⟩

end Barrier

end CorrelationBarrier
