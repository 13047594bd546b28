import CorrelationBarrier.Proofs.Barrier.Serving
import CorrelationBarrier.Proofs.Barrier.Tour

/-!
# Sequences

A barrier holds back the messages of a key until there are as many as each of them says belong to its sequence. It marks
what it gives, so a group that is complete stays complete while it is handed out and while further messages come in.

* `ReleaseRule.sequenceComplete_eq` — the rule, where the messages of a group agree about the size;
* `Stop.Follows` — what a visit makes of a sequence; `follows_of_visits`;
* `kept_or_drained` — a group keeps its messages from one operation to the next unless a visit drops it, and
  `kept_until_drained` says the same of any number of operations;
* `sequences_whole` — the result.
-/

namespace CorrelationBarrier

variable {K M α : Type}

/-- Whichever message announces the size, it announces the same. -/
theorem ReleaseRule.sequenceComplete_eq {g : Group K (Message α)} {size : Nat} (nonempty : g.marked ++ g.unmarked ≠ [])
    (sized : ∀ m ∈ g.marked ++ g.unmarked, m.headers.sequenceSize = some size) (now : Instant) :
    sequenceComplete g now = .ok (decide (size ≤ g.size)) := by
  obtain ⟨first, announces, mem⟩ : ∃ first, (g.unmarked.head? <|> g.marked.head?) = some first ∧
      first ∈ g.marked ++ g.unmarked := by
    cases unmarked : g.unmarked with
    | cons m rest => exact ⟨m, rfl, List.mem_append_right _ List.mem_cons_self⟩
    | nil =>
      cases marked : g.marked with
      | cons m rest => exact ⟨m, rfl, List.mem_append_left _ List.mem_cons_self⟩
      | nil =>
        rw [unmarked, marked] at nonempty
        exact absurd rfl nonempty
  simp only [sequenceComplete, announces, sized first mem]

variable [DecidableEq K]

namespace Barrier

/-- What a visit makes of a sequence of `size c.key` messages. A group that has fewer is held back. Of a complete one the
oldest unmarked message is handed out, and if there is none the group is dropped with its key. -/
inductive Stop.Follows (size : K → Nat) (c : Stop K M) : Prop where
  | stale (group : c.found.store.group c.key = none) (outcome : c.outcome = .ok .stale)
    (left : c.left.store = c.found.store)
  | held {g} (group : c.found.store.group c.key = some g) (few : g.size < size c.key) (outcome : c.outcome = .ok .held)
    (left : c.left.store = c.found.store)
  | released {g m rest} (group : c.found.store.group c.key = some g) (complete : size c.key ≤ g.size)
    (unmarked : g.unmarked = m :: rest) (outcome : c.outcome = .ok (.released m))
    (left : c.left.store.group c.key = some { g with unmarked := rest, marked := g.marked ++ [m] })
  | drained {g} (group : c.found.store.group c.key = some g) (complete : size c.key ≤ g.size)
    (unmarked : g.unmarked = []) (outcome : c.outcome = .ok .drained) (left : c.left.store.group c.key = none)
    (untracked : c.key ∉ c.left.pendingKeys)

section Visits

variable [BEq M] [ReflBEq M] {clock : Nat → Instant} {b b' : Barrier K M} {k : K} {size : K → Nat}

theorem follows_of_visits {a : Outcome (BarrierError K) (Visit M)} (visits : b.Visits (onTime clock) k a b')
    (mode : b.rules.mode = .mark)
    (judges : ∀ g now, b.store.group k = some g → b.rules.release g now = .ok (decide (size k ≤ g.size))) :
    (⟨k, b, a, b'⟩ : Stop K M).Follows size := by
  have answered {g : Group K M} {now : Instant} {may : Bool} (group : b.store.group k = some g)
      (judged : b.rules.release g now = .ok may) : may = decide (size k ≤ g.size) :=
    Except.ok.inj (judged.symm.trans (judges g now group))
  cases visits with
  | failed trouble =>
    cases trouble with
    | store fails => cases fails
    | rule group judged => cases judged.symm.trans (judges _ _ group)
  | held group judged leaves =>
    have few := of_decide_eq_false (answered group judged).symm
    exact .held group (Nat.not_le.1 few) rfl leaves.store
  | released group judged unmarked leaves =>
    refine .released group (of_decide_eq_true (answered group judged).symm) unmarked rfl ?_
    show b'.store.group k = _
    rw [leaves.store, GroupStore.group_handOut _ group unmarked, if_pos rfl, mode]
    rfl
  | drained group judged unmarked leaves =>
    refine .drained group (of_decide_eq_true (answered group judged).symm) unmarked rfl ?_ fun mem => ?_
    · show b'.store.group k = none
      rw [leaves.store, GroupStore.group_dropGroup, if_pos rfl]
    · have mem : k ∈ b'.table.keys := mem
      rw [leaves.table, LockTable.mem_keys_expel] at mem
      exact mem.1 rfl
  | forgotten _ group leaves | missed _ group leaves => exact .stale group rfl leaves.store

omit [ReflBEq M] in
/-- A message that comes in takes no group away. -/
theorem Responds.grouped {m : M} {a : Answer K M} (responds : b.Responds (.accept m) a b')
    (group : (b.store.group k).isSome) : (b'.store.group k).isSome := by
  cases responds with
  | unkeyed => exact group
  | refused _ _ leaves => exact leaves.store ▸ group
  | accepted _ add leaves =>
    rw [leaves.store, GroupStore.group_add add]
    split
    · rfl
    · exact group

end Visits

section Runs

variable {correlate : Correlation K (Message α)} {policy : TokenPolicy} {capacity : Nat} {size : K → Nat}
  {ops : List (Served K (Message α))} {k : K} {g : Group K (Message α)}

/-- The messages of a key agree about the size of its sequence. -/
def Sized (correlate : Correlation K (Message α)) (size : K → Nat) (ops : List (Served K (Message α))) : Prop :=
  ∀ o ∈ ops, ∀ m k, o.2 = .accept m → correlate m = .ok k → m.headers.sequenceSize = some (size k)

omit [DecidableEq K] in
theorem Sized.of_prefix {p : List (Served K (Message α))} (sized : Sized correlate size ops) (sub : p <+: ops) :
    Sized correlate size p := fun o mem => sized o (sub.subset mem)

/-- A barrier of sequences that marks what it gives. -/
abbrev sequencing (correlate : Correlation K (Message α)) (policy : TokenPolicy) (capacity : Nat) :
    Barrier K (Message α) := new ⟨correlate, .sequenceComplete, .mark⟩ policy capacity

/-- The rule judges every group by its size. -/
theorem Sized.judges (sized : Sized correlate size ops)
    (group : ((sequencing correlate policy capacity).after ops).store.group k = some g) (now : Instant) :
    ReleaseRule.sequenceComplete g now = .ok (decide (size k ≤ g.size)) := by
  obtain ⟨pre, post, rfl, -, -, content, nonempty⟩ := life_of_group rfl policy capacity ops group
  refine ReleaseRule.sequenceComplete_eq nonempty (fun m mem => ?_) now
  rw [content] at mem
  obtain ⟨key, e, he, accepts⟩ := mem_acceptedUnder mem
  have served := List.mem_map_of_mem (f := Prod.fst) he
  rw [operations_record, accepts] at served
  obtain ⟨o, ho, accepts⟩ := List.mem_map.1 served
  exact sized o (List.mem_append_right _ ho) m k accepts key

/-- Every visit finds its key as the pull has found it, and treats it as a sequence. -/
theorem Sized.follows (sized : Sized correlate size ops) {clock : Nat → Instant} {order : WalkOrder K}
    {c : Stop K (Message α)} (mem : c ∈ ((sequencing correlate policy capacity).after ops).tour (onTime clock) order) :
    c.found.store.group c.key = ((sequencing correlate policy capacity).after ops).store.group c.key ∧
      c.Follows size := by
  obtain ⟨visits, rules, group⟩ := mem_tour mem
  rw [rules_after] at rules
  refine ⟨group, follows_of_visits visits (by rw [rules]; rfl) fun g now hg => ?_⟩
  rw [rules]
  exact sized.judges (group.symm.trans hg) now

/-- A group keeps its messages unless a visit drops it. -/
theorem Sized.kept_or_drained (sized : Sized correlate size ops) (o : Served K (Message α))
    (group : ((sequencing correlate policy capacity).after ops).store.group k = some g) :
    let b := (sequencing correlate policy capacity).after ops
    (∃ g', (b.after [o]).store.group k = some g' ∧ g.marked ++ g.unmarked <+: g'.marked ++ g'.unmarked) ∨
      ∃ order, o.2 = .pull order ∧ ∃ c ∈ b.tour (onTime o.1) order, c.key = k ∧ c.outcome = .ok .drained := by
  intro b
  cases left : (b.after [o]).store.group k with
  | some g' =>
    obtain ⟨same, carries⟩ := carries_answer ⟨correlate, .sequenceComplete, .mark⟩ policy capacity ops o k
    have books := carries.books
    have marked := carries.marked (by rw [same]) (Option.isSome_of_eq_some left)
    rw [same, GroupStore.unmarked_of_group group, GroupStore.unmarked_of_group left] at books
    rw [same, GroupStore.marked_of_group group, GroupStore.marked_of_group left] at marked
    refine .inl ⟨g', rfl, acceptedUnder ⟨correlate, .sequenceComplete, .mark⟩ k [(o.2, b.answer o)], ?_⟩
    rw [marked, List.append_assoc, List.append_assoc, books.symm]
  | none =>
    obtain ⟨clock, op⟩ := o
    cases op with
    | accept m =>
      have stays := (b.responds (clock, .accept m)).grouped (Option.isSome_of_eq_some group)
      rw [left] at stays
      cases stays
    | pull order =>
      rw [after_pull] at left
      refine .inr ⟨order, rfl, ?_⟩
      rcases group_pullInTurn (onTime clock) order b k with ⟨c, mem, rfl, after⟩ | same
      · obtain ⟨found, follows⟩ := sized.follows mem
        have found : c.found.store.group c.key = some g := found.trans group
        rw [left] at after
        refine ⟨c, mem, rfl, ?_⟩
        cases follows with
        | stale _ _ same | held _ _ _ same =>
          rw [same, found] at after
          cases after
        | released _ _ _ _ kept =>
          rw [kept] at after
          cases after
        | drained _ _ _ outcome => exact outcome
      · rw [left, group] at same
        cases same

/-- A group has kept its messages at any later time unless a visit has dropped it. -/
theorem Sized.kept_until_drained {p : List (Served K (Message α))} (q : List (Served K (Message α)))
    (sized : Sized correlate size (p ++ q))
    (group : ((sequencing correlate policy capacity).after p).store.group k = some g) :
    let start := sequencing correlate policy capacity
    (∃ g', (start.after (p ++ q)).store.group k = some g' ∧ g.marked ++ g.unmarked <+: g'.marked ++ g'.unmarked) ∨
      ∃ q' clock order, q' ++ [(clock, .pull order)] <+: q ∧
        ∃ c ∈ (start.after (p ++ q')).tour (onTime clock) order, c.key = k ∧ c.outcome = .ok .drained := by
  intro start
  induction q using List.reverseRecOn with
  | nil => exact .inl ⟨g, (List.append_nil p).symm ▸ group, List.prefix_rfl⟩
  | append_singleton q o ih =>
    rw [← List.append_assoc] at sized ⊢
    have before : Sized correlate size (p ++ q) := sized.of_prefix (List.prefix_append ..)
    rcases ih before with ⟨g', group', grown⟩ | ⟨q', clock, order, sub, drops⟩
    · rw [after_append]
      rcases before.kept_or_drained o group' with ⟨g'', group'', grown'⟩ | ⟨order, pulls, drops⟩
      · exact .inl ⟨g'', group'', grown.trans grown'⟩
      · obtain ⟨clock, op⟩ := o
        cases pulls
        exact .inr ⟨q, clock, order, List.prefix_rfl, drops⟩
    · exact .inr ⟨q', clock, order, sub.trans (List.prefix_append ..), drops⟩

/-- **Sequences come out whole.** Operations are served one after the other by a barrier that holds back sequences and marks
what it gives, and all messages of a key say that their sequence has the same size. Then every visit of every pull holds a
group back as long as it has fewer messages, hands out the oldest unmarked message of one that is complete, and drops it
with its key once there is none; no visit fails. A group keeps its messages at all times, whatever else goes on, until a
visit drops it, so a complete one stays complete. It holds the messages that came in since it began, and those handed out
of it are the oldest of them. Over all, the messages of a key come out in the order in which they came in. -/
theorem sequences_whole (correlate : Correlation K (Message α)) (policy : TokenPolicy) (capacity : Nat) (size : K → Nat)
    (ops : List (Served K (Message α))) (sized : Sized correlate size ops) :
    let rules : Rules K (Message α) := ⟨correlate, .sequenceComplete, .mark⟩
    let start : Barrier K (Message α) := new rules policy capacity
    (∀ p clock order, p ++ [(clock, .pull order)] <+: ops →
      let b := start.after p
      let visits := b.tour (onTime clock) order
      b.answer (clock, .pull order) = .pulled (bring visits) ∧ b.after [(clock, .pull order)] = b.arrive visits ∧
      ∀ c ∈ visits, c.found.store.group c.key = b.store.group c.key ∧ c.Follows size) ∧
    (∀ p q k g, p ++ q <+: ops → (start.after p).store.group k = some g →
      (∃ g', (start.after (p ++ q)).store.group k = some g' ∧ g.size ≤ g'.size ∧
        g.marked ++ g.unmarked <+: g'.marked ++ g'.unmarked) ∨
      ∃ q' clock order, q' ++ [(clock, .pull order)] <+: q ∧
        ∃ c ∈ (start.after (p ++ q')).tour (onTime clock) order, c.key = k ∧ c.outcome = .ok .drained) ∧
    (∀ p k g, p <+: ops → (start.after p).store.group k = some g →
      ∃ pre post, p = pre ++ post ∧ start.Life k pre post ∧
        g.marked = releasedUnder rules k ((start.after pre).record post) ∧
        g.marked ++ g.unmarked = acceptedUnder rules k ((start.after pre).record post)) ∧
    ∀ p k, p <+: ops →
      acceptedUnder rules k (start.record p) = releasedUnder rules k (start.record p) ++ (start.after p).store.unmarked k := by
  intro rules start
  refine ⟨fun p clock order sub => ⟨?_, ?_, fun c mem => ?_⟩, fun p q k g sub group => ?_, fun p k g _ group => ?_,
    fun p k _ => ?_⟩
  · rw [answer_pull, pullInTurn_eq]
  · rw [after_pull, pullInTurn_eq]
  · exact (sized.of_prefix ((List.prefix_append ..).trans sub)).follows mem
  · rcases (sized.of_prefix sub).kept_until_drained q group with ⟨g', group', grown⟩ | drained
    · have size (g : Group K (Message α)) : g.size = (g.marked ++ g.unmarked).length := by
        rw [Group.size, List.length_append, Nat.add_comm]
      exact .inl ⟨g', group', by rw [size, size]; exact grown.length_le, grown⟩
    · exact .inr drained
  · obtain ⟨pre, post, split, life, marked, content, -⟩ := life_of_group rfl policy capacity p group
    exact ⟨pre, post, split, life, marked, content⟩
  · exact acceptedUnder_eq rules policy capacity p k

/-- A sequence of two parts: the visit after both were handed out drops it. -/
theorem sequences_whole_of_two_parts :
    let first : Message Nat := (Message.new ⟨0, 1⟩ 7).withSequence 1 2
    let second : Message Nat := (Message.new ⟨0, 2⟩ 7).withSequence 2 2
    let pull : Served Nat (Message Nat) := (fun n => n, .pull .asListed)
    let ops : List (Served Nat (Message Nat)) := [(fun n => n, .accept first), pull, (fun n => n, .accept second), pull, pull]
    let rules : Rules Nat (Message Nat) := ⟨fun m => .ok m.payload, .sequenceComplete, .mark⟩
    let start : Barrier Nat (Message Nat) := new rules .validated 0
    Sized rules.correlate (fun _ => 2) (ops ++ [pull]) ∧
      (releasedUnder rules 7 (start.record ops)).map (·.id) = [first.id, second.id] ∧
      (start.after ops).pendingKeys = [7] ∧ (start.after (ops ++ [pull])).pendingKeys = [] ∧
      ∀ c ∈ (start.after ops).tour (onTime fun n => n) .asListed, c.Follows fun _ => 2 := by
  intro first second pull ops rules start
  have sized : Sized rules.correlate (fun _ => 2) (ops ++ [pull]) := by
    intro o mem m k accepts _
    simp only [ops, pull, List.cons_append, List.nil_append, List.mem_cons, List.not_mem_nil, or_false] at mem
    rcases mem with rfl | rfl | rfl | rfl | rfl | rfl <;> cases accepts <;> rfl
  obtain ⟨visits, -⟩ := sequences_whole rules.correlate .validated 0 (fun _ => 2) (ops ++ [pull]) sized
  exact ⟨sized, by decide +kernel, by decide +kernel, by decide +kernel, fun c mem => ((visits ops _ _ List.prefix_rfl).2.2 c mem).2⟩

end Runs

end Barrier

end CorrelationBarrier
