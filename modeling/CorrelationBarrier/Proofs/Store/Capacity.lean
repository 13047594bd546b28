import CorrelationBarrier.Proofs.Barrier.Content
import CorrelationBarrier.Proofs.Barrier.Solo
import CorrelationBarrier.Proofs.Store.Effects

/-!
# The count of a store and its capacity

A store counts its messages beside the groups that hold them. The count is what the groups hold together, so it never falls
below what is taken off it, and a store refuses a message exactly when it is full.

* `GroupStore.content_add`, `GroupStore.content_eq_sum` — the content of a store once a message is added, and as the sum
  over its groups;
* `GroupStore.Counted` — the count is right and within the capacity; `Counted.effect` — every request keeps it so;
* `MarkedAfter` — what a request may do to the marked messages of a group; `markedAfter_perform`;
* `count_within_capacity` — the result, for any series of requests.
-/

namespace CorrelationBarrier

variable {K M : Type} [DecidableEq K]

theorem Assoc.lookup_of_mem {V : Type} {k : K} {v : V} {l : List (K × V)} (nodup : (l.map Prod.fst).Nodup)
    (mem : (k, v) ∈ l) : Assoc.lookup k l = some v := by
  induction l with
  | nil => cases mem
  | cons p l ih =>
    obtain ⟨j, w⟩ := p
    obtain ⟨off, nodup⟩ := List.nodup_cons.1 nodup
    rcases List.mem_cons.1 mem with same | mem
    · cases same
      exact if_pos rfl
    · have on : k ∈ l.map Prod.fst := List.mem_map_of_mem (f := Prod.fst) mem
      have other : j ≠ k := fun e => off (e.symm ▸ on)
      exact (if_neg other).trans (ih nodup mem)

namespace GroupStore

variable {s s' : GroupStore K M} {now : Instant} {k : K} {m : M} {g : Group K M}

/-! ## the content of a store -/

/-- The content of a store is the sum over its groups. -/
theorem content_eq_sum (s : GroupStore K M) : s.content = (s.groups.values.map Group.size).sum := by
  rw [content, Assoc.keys, Assoc.values, List.map_map, List.map_map]
  refine congrArg List.sum (List.map_congr_left fun p mem => ?_)
  exact weight_of_group (Assoc.lookup_of_mem s.groups.nodup mem)

omit [DecidableEq K] in
theorem full_iff : s.full = true ↔ s.capacity ≠ 0 ∧ s.capacity ≤ s.messages := by
  rw [full, Bool.and_eq_true, decide_eq_true_iff, decide_eq_true_iff, Nat.pos_iff_ne_zero]

theorem add_of_room (h : s.add now k m = .ok s') : s.full = false ∧ s'.capacity = s.capacity ∧
    s'.messages = s.messages + 1 ∧ ∃ g : Group K M, s'.groups = s.groups.set k g ∧ g.size = s.weight k + 1 := by
  unfold add at h
  split at h
  · cases h
  · cases h
    refine ⟨Bool.eq_false_iff.2 ‹_›, rfl, rfl, _, rfl, ?_⟩
    rw [Group.size_push, weight]
    cases s.group k <;> rfl

theorem add_eq_error_iff {e : StoreError} :
    s.add now k m = .error e ↔ e = .capacityExceeded s.capacity ∧ s.capacity ≠ 0 ∧ s.capacity ≤ s.messages := by
  rw [← full_iff]
  unfold add
  cases s.full with
  | true => simpa using eq_comm
  | false => simp

/-- A message that is added makes the content larger by one. -/
theorem content_add (h : s.add now k m = .ok s') : s'.content = s.content + 1 := by
  obtain ⟨-, -, -, g, groups, size⟩ := add_of_room h
  have group (j : K) : s'.group j = if k = j then some g else s.group j := by
    rw [GroupStore.group, groups, Assoc.get?_set]
    rfl
  have own : s'.weight k = s.weight k + 1 := by rw [weight, group, if_pos rfl, Option.map_some, Option.getD_some, size]
  have others (j : K) (ne : k ≠ j) : s'.weight j = s.weight j := by rw [weight, group, if_neg ne, weight]
  by_cases mem : k ∈ s.groups.keys
  · have sum : s.content + s'.weight k = s'.content + s.weight k := by
      rw [content, content, groups, Assoc.keys_set_of_mem mem]
      exact sum_map_change s.groups.keys_nodup mem _ _ others
    omega
  · have none : s.weight k = 0 := by
      rw [weight, GroupStore.group, Assoc.get?_eq_none.2 mem]
      rfl
    have same : s.groups.keys.map s'.weight = s.groups.keys.map s.weight :=
      List.map_congr_left fun j on => others j fun e => mem (e ▸ on)
    rw [content, groups, Assoc.keys_set_of_not_mem mem, List.map_append, List.sum_append, same, List.map_singleton,
      List.sum_singleton, own, none, content]

/-! ## the count is right -/

/-- The count of a store is what its groups hold, and the capacity bounds it. -/
structure Counted (s : GroupStore K M) : Prop where
  messages : s.messages = s.content
  bounded : s.capacity ≠ 0 → s.messages ≤ s.capacity

namespace Counted

theorem empty (capacity : Nat) : (GroupStore.empty capacity : GroupStore K M).Counted := ⟨rfl, fun _ => Nat.zero_le _⟩

/-- A call that takes no more off the count than the groups lose. -/
theorem of_less (counted : s.Counted) (capacity : s'.capacity = s.capacity)
    (taken : s'.content ≤ s.content ∧ s'.messages = s.messages - (s.content - s'.content)) : s'.Counted := by
  obtain ⟨less, messages⟩ := taken
  have exact := counted.messages
  have bounded := counted.bounded
  refine ⟨by omega, fun positive => ?_⟩
  rw [capacity] at positive ⊢
  have := bounded positive
  omega

theorem add (counted : s.Counted) (h : s.add now k m = .ok s') : s'.Counted := by
  obtain ⟨room, capacity, messages, -⟩ := add_of_room h
  refine ⟨by rw [messages, content_add h, counted.messages], fun positive => ?_⟩
  rw [capacity] at positive ⊢
  have room : ¬ (s.capacity ≠ 0 ∧ s.capacity ≤ s.messages) := fun h => by
    rw [full_iff.2 h] at room
    cases room
  omega

theorem change (counted : s.Counted) {f : Group K M → Group K M} (le : ∀ g, (f g).size ≤ g.size) :
    (s.change k f).Counted := by
  cases group : s.group k with
  | none =>
    have same : s.change k f = s := by rw [GroupStore.change, group]
    exact same.symm ▸ counted
  | some g => exact counted.of_less (capacity_change ..) (messages_change group (le g))

theorem dropGroup (counted : s.Counted) : (s.dropGroup k).Counted :=
  counted.of_less (capacity_dropGroup ..) (messages_dropGroup ..)

/-- The count holds at least what one group does, so dropping the group takes off just that. -/
theorem messages_dropGroup_add (counted : s.Counted) (group : s.group k = some g) :
    (s.dropGroup k).messages + g.size = s.messages := by
  have taken := content_dropGroup group
  have left := messages_dropGroup s k
  have exact := counted.messages
  omega

/-- The count holds at least what a group loses, so a change takes off just that. -/
theorem messages_change_add (counted : s.Counted) (group : s.group k = some g) {f : Group K M → Group K M}
    (le : (f g).size ≤ g.size) : (s.change k f).messages + (g.size - (f g).size) = s.messages := by
  have taken := content_change group f
  have left := messages_change group le
  have exact := counted.messages
  omega

variable [BEq M]

/-- Every request keeps the count right. -/
theorem effect {d : Shared K M} {env : Surroundings} {c : Request K M} {r : c.Reply} (counted : d.store.Counted)
    (effect : d.Effect env c r s) : s.Counted ∧ s.capacity = d.store.capacity := by
  cases effect with
  | looked | refused | notRemoved | notMarked | notDropped => exact ⟨counted, rfl⟩
  | added add => exact ⟨counted.add add, (add_of_room add).2.1⟩
  | removed => exact ⟨counted.change fun g => g.size_remove_le _, capacity_change ..⟩
  | marked => exact ⟨counted.change fun g => Nat.le_of_eq (g.size_mark _), capacity_change ..⟩
  | dropped => exact ⟨counted.dropGroup, capacity_dropGroup ..⟩

theorem handle {d : Shared K M} (counted : d.store.Counted) (calls : List (Posed K M)) :
    (d.handle calls).store.Counted ∧ (d.handle calls).store.capacity = d.store.capacity := by
  induction calls generalizing d with
  | nil => exact ⟨counted, rfl⟩
  | cons c rest ih =>
    obtain ⟨counted, capacity⟩ := counted.effect (d.effect_perform c.1 c.2)
    obtain ⟨counted', capacity'⟩ := ih counted
    exact ⟨counted', capacity'.trans capacity⟩

end Counted

end GroupStore

/-! ## marked messages -/

variable [BEq M]

/-- What a request may do to the marked messages of a group. They stay, and others may come after them; or one of them is
removed by name; or the group is dropped. -/
inductive MarkedAfter (k : K) (marked : List M) (s : GroupStore K M) : Request K M → Prop where
  | kept {c g} (group : s.group k = some g) (stay : marked <+: g.marked) : MarkedAfter k marked s c
  | removed {m g} (group : s.group k = some g) (left : g.marked = marked.eraseP (· == m)) :
    MarkedAfter k marked s (.remove k m)
  | dropped (group : s.group k = none) : MarkedAfter k marked s (.dropGroup k)

theorem markedAfter_perform {d : Shared K M} {k : K} {g : Group K M} (group : d.store.group k = some g)
    (env : Surroundings) (c : Request K M) : MarkedAfter k g.marked (d.perform env c).2.store c := by
  have effect := d.effect_perform env c
  generalize (d.perform env c).2.store = s at effect ⊢
  generalize (d.perform env c).1 = r at effect
  cases effect with
  | looked | refused | notRemoved | notMarked | notDropped => exact .kept group List.prefix_rfl
  | @added j m s add =>
    have left := GroupStore.group_add add k
    by_cases own : j = k
    · subst own
      rw [if_pos rfl, group] at left
      exact .kept left List.prefix_rfl
    · exact .kept (left.trans ((if_neg own).trans group)) List.prefix_rfl
  | @removed j m =>
    have left := GroupStore.group_change d.store j (·.remove m) k
    by_cases own : j = k
    · subst own
      rw [if_pos rfl, group] at left
      rcases g.marked_remove m with same | one
      · exact .kept left (same ▸ List.prefix_rfl)
      · exact .removed left one
    · exact .kept (left.trans ((if_neg own).trans group)) List.prefix_rfl
  | @marked j m =>
    have left := GroupStore.group_change d.store j (·.mark m) k
    by_cases own : j = k
    · subst own
      rw [if_pos rfl, group] at left
      exact .kept left (g.marked_mark m)
    · exact .kept (left.trans ((if_neg own).trans group)) List.prefix_rfl
  | @dropped j =>
    have left := GroupStore.group_dropGroup d.store j k
    by_cases own : j = k
    · subst own
      exact .dropped (left.trans (if_pos rfl))
    · exact .kept (left.trans ((if_neg own).trans group)) List.prefix_rfl

theorem Shared.add_rejected_iff (d : Shared K M) (env : Surroundings) (k : K) (m : M) {n : Nat} :
    (d.perform env (.add k m)).1 = .error (.error (.capacityExceeded n)) ↔
      env.fault .add = none ∧ n = d.store.capacity ∧ d.store.capacity ≠ 0 ∧ d.store.capacity ≤ d.store.messages := by
  cases fault : env.fault .add with
  | some fault' =>
    have other : fault'.failure ≠ .error (.capacityExceeded n) := by cases fault' <;> simp [Fault.failure]
    rw [Shared.perform, Shared.onStore_of_fault fault]
    exact ⟨fun h => absurd (Except.error.inj h) other, fun h => by cases h.1⟩
  | none =>
    have rejected : (d.perform env (.add k m)).1 = .error (.error (.capacityExceeded n)) ↔
        d.store.add env.now k m = .error (.capacityExceeded n) := by
      cases add : d.store.add env.now k m with
      | error e =>
        rw [Shared.perform, Shared.onStore_of_error fault (congrArg (Except.map _) add)]
        exact ⟨fun h => congrArg Except.error (Failure.error.inj (Except.error.inj h)),
          fun h => congrArg Outcome.failed (Except.error.inj h)⟩
      | ok s =>
        rw [Shared.perform, Shared.onStore_of_ok fault (congrArg (Except.map _) add)]
        simp
    rw [rejected, GroupStore.add_eq_error_iff]
    simp

/-! ## any series of requests -/

/-- **The count of a store.** Any requests are answered one after the other by a store that begins empty, with any capacity;
keys and messages may be absent or come again, and calls may fail before they take effect. After them the count is the
number of unmarked and marked messages in all groups together, and a capacity above zero bounds it. So no subtraction from
it goes below zero: dropping a group takes off its size, removing a message takes off what its group loses, and marking
takes off nothing. An addition is refused for want of room exactly if the capacity is above zero and the count has reached
it, and one that is refused leaves the store as it was. Marked messages stay in their group, and so count, until they are
removed or the group is dropped. -/
theorem count_within_capacity (capacity : Nat) (calls : List (Posed K M)) :
    let d : Shared K M := ({ store := .empty capacity } : Shared K M).handle calls
    let s := d.store
    s.messages = (s.groups.values.map fun g => g.unmarked.length + g.marked.length).sum ∧
    (capacity ≠ 0 → s.messages ≤ capacity) ∧
    (∀ k g, s.group k = some g →
      (s.dropGroup k).messages + g.size = s.messages ∧
      ∀ m, (g.remove m).size ≤ g.size ∧ (s.remove k m).messages + (g.size - (g.remove m).size) = s.messages) ∧
    (∀ k m, (s.mark k m).messages = s.messages) ∧
    (∀ env k m,
      ((d.perform env (.add k m)).1 = .error (.error (.capacityExceeded capacity)) ↔
        env.fault .add = none ∧ capacity ≠ 0 ∧ capacity ≤ s.messages) ∧
      ∀ f, (d.perform env (.add k m)).1 = .error f → (d.perform env (.add k m)).2.store = s) ∧
    ∀ env c k g, s.group k = some g → MarkedAfter k g.marked (d.perform env c).2.store c := by
  intro d s
  obtain ⟨counted, same⟩ : s.Counted ∧ s.capacity = capacity := (GroupStore.Counted.empty capacity).handle calls
  refine ⟨counted.messages.trans s.content_eq_sum, fun positive => ?_, fun k g group => ⟨?_, fun m => ⟨?_, ?_⟩⟩,
    fun k m => ?_, fun env k m => ⟨?_, fun f refused => ?_⟩, fun env c k g group => markedAfter_perform group env c⟩
  · rw [← same] at positive ⊢
    exact counted.bounded positive
  · exact counted.messages_dropGroup_add group
  · exact g.size_remove_le m
  · exact counted.messages_change_add group (g.size_remove_le m)
  · cases group : s.group k with
    | none => rw [GroupStore.mark, GroupStore.change, group]
    | some g =>
      have taken := counted.messages_change_add group (f := (·.mark m)) (Nat.le_of_eq (g.size_mark m))
      rwa [g.size_mark, Nat.sub_self] at taken
  · rw [d.add_rejected_iff, ← same]
    exact ⟨fun h => ⟨h.1, h.2.2⟩, fun h => ⟨h.1, rfl, h.2⟩⟩
  · exact Shared.onStore_error refused

/-- Of two messages one is marked, which makes no room for a third; removing the marked one does. -/
theorem count_within_capacity_of_two :
    let calls : List (Posed Nat Nat) := [({}, .add 0 7), ({}, .add 1 8), ({}, .mark 0 7), ({}, .add 0 9)]
    let d : Shared Nat Nat := ({ store := .empty 2 } : Shared Nat Nat).handle calls
    let d' := (d.perform {} (.remove 0 7)).2
    d.store.groups.values.map (fun g => (g.unmarked, g.marked)) = [([], [7]), ([8], [])] ∧ d.store.messages = 2 ∧
      (d.perform {} (.add 0 9)).1 = .error (.error (.capacityExceeded 2)) ∧
      (d.perform {} (.add 0 9)).2.store = d.store ∧ d'.store.messages = 1 ∧ (d'.perform {} (.add 0 9)).1 = .ok () := by
  intro calls d d'
  obtain ⟨-, -, -, -, refuses, -⟩ := count_within_capacity 2 calls
  obtain ⟨rejected, same⟩ := refuses {} 0 9
  have full : (d.perform {} (.add 0 9)).1 = .error (.error (.capacityExceeded 2)) :=
    rejected.2 ⟨rfl, by decide, by decide⟩
  exact ⟨by decide, by decide, full, same _ full, by decide, rfl⟩

end CorrelationBarrier
