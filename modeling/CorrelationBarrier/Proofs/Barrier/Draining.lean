import CorrelationBarrier.Proofs.Barrier.Content
import CorrelationBarrier.Proofs.Barrier.Ledger
import CorrelationBarrier.Proofs.Barrier.Solo

/-!
# Draining a barrier

A drain makes of every key what the group of this key alone says, in whatever order its pulls visit the keys.

* `Group.settle` — what a rule that always answers by a predicate makes of a group; `Barrier.fate` — what it makes of a
  key;
* `Barrier.Turned` — what visits have made of a barrier so far. The fates of all keys stay what they were, less what was
  handed out, and each counter makes up for something that is left;
* `Visits.turned`, `Walks.turned` — every visit keeps to this, and so does every walk;
* `Barrier.Settled` — nothing is left to do for a key; `Turned.unique` — visits that leave all keys settled leave the same;
* `drain_confluent` — the result for whole drains.
-/

namespace CorrelationBarrier

variable {K M : Type}

/-! ## what becomes of a group -/

/-- What a drain makes of a key: the messages that it hands out, the group that remains, and whether the key remains. -/
structure Outlook (K M : Type) where
  released : List M
  group : Option (Group K M)
  tracked : Bool

namespace Outlook

/-- The outlook before some messages were handed out. -/
def after (ms : List M) (o : Outlook K M) : Outlook K M := { o with released := ms ++ o.released }

theorem after_nil (o : Outlook K M) : o.after [] = o := rfl

theorem after_after (ms ms' : List M) (o : Outlook K M) : (o.after ms').after ms = o.after (ms ++ ms') := by
  simp [after]

end Outlook

namespace Group

/-- The group once a message is handed out and `rest` is left of the unmarked ones. -/
def give (mode : ReleaseMode) (m : M) (rest : List M) (g : Group K M) : Group K M :=
  match mode with
  | .remove => { g with unmarked := rest }
  | .mark => { g with unmarked := rest, marked := g.marked ++ [m] }

@[simp] theorem unmarked_give (mode : ReleaseMode) (m : M) (rest : List M) (g : Group K M) :
    (g.give mode m rest).unmarked = rest := by
  cases mode <;> rfl

theorem size_give_le {mode : ReleaseMode} {m : M} {rest : List M} {g : Group K M} (h : g.unmarked = m :: rest) :
    (g.give mode m rest).size ≤ g.size := by
  cases mode with
  | remove => simp [give, size, h]
  | mark =>
    simp [give, size, h]
    omega

/-- What pulls make of a group as long as the predicate `p` lets them. -/
def settle (mode : ReleaseMode) (p : Group K M → Bool) (g : Group K M) : Outlook K M :=
  if p g then
    match _ : g.unmarked with
    | [] => ⟨[], none, false⟩
    | m :: rest => (settle mode p (g.give mode m rest)).after [m]
  else ⟨[], some g, true⟩
termination_by g.unmarked.length
decreasing_by simp [*]

variable {mode : ReleaseMode} {p : Group K M → Bool} {g : Group K M}

theorem settle_of_held (h : p g = false) : g.settle mode p = ⟨[], some g, true⟩ := by
  rw [settle, if_neg (by simp [h])]

theorem settle_of_drained (h : p g = true) (unmarked : g.unmarked = []) : g.settle mode p = ⟨[], none, false⟩ := by
  rw [settle, if_pos h]
  split
  · rfl
  · rename_i nonempty
    rw [unmarked] at nonempty
    cases nonempty

theorem settle_of_released {m : M} {rest : List M} (h : p g = true) (unmarked : g.unmarked = m :: rest) :
    g.settle mode p = ((g.give mode m rest).settle mode p).after [m] := by
  rw [settle, if_pos h]
  split
  · rename_i empty
    rw [unmarked] at empty
    cases empty
  · rename_i m' rest' split'
    rw [unmarked] at split'
    cases split'
    rfl

end Group

/-- What a drain makes of a tracked key with the given group or without one. -/
def outlook (mode : ReleaseMode) (policy : TokenPolicy) (p : Group K M → Bool) : Option (Group K M) → Outlook K M
  | some g => g.settle mode p
  | none => ⟨[], none, policy = .tolerant⟩

/-! ## events and counters -/

/-- The message that an event shows to be handed out, with its key. -/
def Event.released? : Event K M → Option (K × M)
  | .released k m => some (k, m)
  | _ => none

theorem Stats.ext_counters {s s' : Stats} (accepted : s.accepted = s'.accepted) (released : s.released = s'.released)
    (groupsRemoved : s.groupsRemoved = s'.groupsRemoved) (staleKeys : s.staleKeys = s'.staleKeys) : s = s' := by
  cases s
  cases s'
  cases accepted
  cases released
  cases groupsRemoved
  cases staleKeys
  rfl

/-- A counter that is raised makes up for one thing less. -/
theorem counter_makes_up (x : UInt64) {n n' : Nat} (h : n' + 1 = n) :
    x + 1 + UInt64.ofNat n' = x + UInt64.ofNat n := by
  rw [← h, UInt64.ofNat_add, UInt64.add_assoc, UInt64.add_comm 1]
  rfl

variable [DecidableEq K]

/-! ## handing out -/

namespace GroupStore

variable [BEq M] [ReflBEq M] {g : Group K M} {m : M} {rest : List M}

/-- Handing out the first unmarked message gives it and leaves the rest. -/
theorem handOut_eq_change (mode : ReleaseMode) (unmarked : g.unmarked = m :: rest) (s : GroupStore K M) (k : K) :
    ∃ f, s.handOut mode k m = s.change k f ∧ f g = g.give mode m rest := by
  have taken : Group.takeEqual m g.unmarked = some (m, rest) := by rw [unmarked, Group.takeEqual_head]
  cases mode with
  | remove => exact ⟨_, rfl, by simp only [Group.remove, taken]; rfl⟩
  | mark => exact ⟨_, rfl, by simp only [Group.mark, taken]; rfl⟩

/-- Which groups there are once the first unmarked message of one is handed out. -/
theorem group_handOut {s : GroupStore K M} {k : K} (mode : ReleaseMode) (group : s.group k = some g)
    (unmarked : g.unmarked = m :: rest) (j : K) :
    (s.handOut mode k m).group j = if k = j then some (g.give mode m rest) else s.group j := by
  obtain ⟨f, handOut, gives⟩ := handOut_eq_change mode unmarked s k
  rw [handOut, group_change, group, Option.map_some, gives]

end GroupStore

namespace Barrier

/-- The messages handed out so far with their keys, oldest first. -/
def handed (b : Barrier K M) : List (K × M) := b.events.filterMap (·.released?)

omit [DecidableEq K] in
theorem Leaves.handed {b b' : Barrier K M} {table : LockTable K} {store : GroupStore K M} {stats : Stats}
    {events : List (Event K M)} (leaves : b.Leaves b' table store stats events) :
    b'.handed = b.handed ++ events.filterMap (·.released?) := by
  rw [Barrier.handed, leaves.events, List.filterMap_append, Barrier.handed]

/-- The number of unmarked messages under tracked keys. -/
def waiting (b : Barrier K M) : Nat := (b.table.keys.map fun k => (b.store.unmarked k).length).sum

/-- What a drain makes of a key; a key that is not tracked is left alone. -/
def fate (b : Barrier K M) (p : Group K M → Bool) (k : K) : Outlook K M :=
  if k ∈ b.table.keys then outlook b.rules.mode b.table.policy p (b.store.group k)
  else ⟨[], b.store.group k, false⟩

/-- The fate of a key depends on its group alone. -/
theorem fate_congr {b b' : Barrier K M} (p : Group K M → Bool) {k : K} (mode : b'.rules.mode = b.rules.mode)
    (policy : b'.table.policy = b.table.policy) (tracked : k ∈ b'.table.keys ↔ k ∈ b.table.keys)
    (group : b'.store.group k = b.store.group k) : b'.fate p k = b.fate p k := by
  simp only [fate, mode, policy, tracked, group]

/-- What visits have made of a barrier that have handed out `out`, if the rule answers by the predicate `p`. -/
structure Turned (p : Group K M → Bool) (b b' : Barrier K M) (out : List (K × M)) : Prop where
  mode : b'.rules.mode = b.rules.mode
  policy : b'.table.policy = b.table.policy
  capacity : b'.store.capacity = b.store.capacity
  /-- No key and no group is new, and those that are left keep their places. -/
  keys : b'.table.keys.Sublist b.table.keys
  groups : b'.store.groups.keys.Sublist b.store.groups.keys
  /-- A key that is left keeps its token. -/
  entries : ∀ k ∈ b'.table.keys, b'.table.current k = b.table.current k
  /-- A drain would make the same of every key. -/
  fates : ∀ k, b.fate p k = (b'.fate p k).after (underKey k out)
  handed : b'.handed = b.handed ++ out
  waiting : b'.waiting + out.length = b.waiting
  content : b'.store.content ≤ b.store.content
  messages : b'.store.messages = b.store.messages - (b.store.content - b'.store.content)
  accepted : b'.stats.accepted = b.stats.accepted
  /-- Every counter makes up for what it counts. -/
  released : b'.stats.released + UInt64.ofNat b'.waiting = b.stats.released + UInt64.ofNat b.waiting
  groupsRemoved : b'.stats.groupsRemoved + UInt64.ofNat b'.store.groups.size =
    b.stats.groupsRemoved + UInt64.ofNat b.store.groups.size
  staleKeys : b.table.policy = .validated →
    b'.stats.staleKeys + b'.stats.groupsRemoved + UInt64.ofNat b'.table.size =
      b.stats.staleKeys + b.stats.groupsRemoved + UInt64.ofNat b.table.size

namespace Turned

variable {p : Group K M → Bool} {b b' b'' : Barrier K M} {out out' : List (K × M)}

theorem refl (p : Group K M → Bool) (b : Barrier K M) : b.Turned p b [] where
  mode := rfl
  policy := rfl
  capacity := rfl
  keys := .refl _
  groups := .refl _
  entries _ _ := rfl
  fates _ := rfl
  handed := (List.append_nil _).symm
  waiting := rfl
  content := Nat.le_refl _
  messages := by omega
  accepted := rfl
  released := rfl
  groupsRemoved := rfl
  staleKeys _ := rfl

theorem trans (h : b.Turned p b' out) (h' : b'.Turned p b'' out') : b.Turned p b'' (out ++ out') where
  mode := h'.mode.trans h.mode
  policy := h'.policy.trans h.policy
  capacity := h'.capacity.trans h.capacity
  keys := h'.keys.trans h.keys
  groups := h'.groups.trans h.groups
  entries k mem := (h'.entries k mem).trans (h.entries k (h'.keys.subset mem))
  fates k := by rw [h.fates, h'.fates, Outlook.after_after, underKey_append]
  handed := by rw [h'.handed, h.handed, List.append_assoc]
  waiting := by
    rw [List.length_append, ← h.waiting, ← h'.waiting]
    omega
  content := Nat.le_trans h'.content h.content
  messages := by
    have := h.content
    have := h'.content
    rw [h'.messages, h.messages]
    omega
  accepted := h'.accepted.trans h.accepted
  released := h'.released.trans h.released
  groupsRemoved := h'.groupsRemoved.trans h.groupsRemoved
  staleKeys validated := (h'.staleKeys (h.policy.trans validated)).trans (h.staleKeys validated)

variable {table : LockTable K} {store : GroupStore K M} {stats : Stats} {events : List (Event K M)} {k : K}

/-- A visit that leaves its group as it is. -/
theorem of_touch (mem : k ∈ b.table.keys) (leaves : b.Leaves b' (b.table.touch k) b.store stats events)
    (silent : events.filterMap (·.released?) = []) (accepted : stats.accepted = b.stats.accepted)
    (released : stats.released = b.stats.released) (groupsRemoved : stats.groupsRemoved = b.stats.groupsRemoved)
    (staleKeys : b.table.policy = .validated → stats.staleKeys = b.stats.staleKeys) : b.Turned p b' [] := by
  have entries : b'.table.entries = b.table.entries := by rw [leaves.table, LockTable.entries_touch mem]
  have keys : b'.table.keys = b.table.keys := congrArg Assoc.keys entries
  have current (j : K) : b'.table.current j = b.table.current j := congrArg (·.get? j) entries
  have policy : b'.table.policy = b.table.policy := by rw [leaves.table, LockTable.policy_touch]
  have waiting : b'.waiting = b.waiting := by rw [Barrier.waiting, keys, leaves.store, Barrier.waiting]
  exact {
    mode := by rw [leaves.rules]
    policy := policy
    capacity := by rw [leaves.store]
    keys := by rw [keys]
    groups := by rw [leaves.store]
    entries := fun j _ => current j
    fates := fun j => by rw [fate, fate, keys, leaves.rules, policy, leaves.store]; rfl
    handed := by rw [leaves.handed, silent]
    waiting := waiting
    content := Nat.le_of_eq (by rw [leaves.store])
    messages := by rw [leaves.store]; omega
    accepted := by rw [leaves.stats, accepted]
    released := by rw [leaves.stats, released, waiting]
    groupsRemoved := by rw [leaves.stats, groupsRemoved, leaves.store]
    staleKeys := fun validated => by
      rw [leaves.stats, staleKeys validated, groupsRemoved, LockTable.size, entries, LockTable.size] }

/-- A visit that drops the group of its key, if there is one, and the key. -/
theorem of_expel (mem : k ∈ b.table.keys)
    (leaves : b.Leaves b' (b.table.expel k) (b.store.dropGroup k) stats events)
    (silent : events.filterMap (·.released?) = []) (fate : b.fate p k = ⟨[], none, false⟩)
    (empty : b.store.unmarked k = []) (accepted : stats.accepted = b.stats.accepted)
    (released : stats.released = b.stats.released)
    (groupsRemoved : stats.groupsRemoved + UInt64.ofNat (b.store.dropGroup k).groups.size =
      b.stats.groupsRemoved + UInt64.ofNat b.store.groups.size)
    (staleKeys : stats.staleKeys + stats.groupsRemoved = b.stats.staleKeys + b.stats.groupsRemoved + 1) :
    b.Turned p b' [] := by
  have keys : b'.table.keys = b.table.keys.filter fun j => !decide (j = k) := by rw [leaves.table, LockTable.keys_expel]
  have policy : b'.table.policy = b.table.policy := by rw [leaves.table, LockTable.policy_expel]
  have group (j : K) : b'.store.group j = if k = j then none else b.store.group j := by
    rw [leaves.store, GroupStore.group_dropGroup]
  have waiting : b.waiting = b'.waiting := by
    have sum : b.waiting = (b.store.unmarked k).length + b'.waiting := by
      rw [Barrier.waiting, Barrier.waiting, keys]
      refine sum_map_filter_ne b.table.keys_nodup mem (fun j => (b.store.unmarked j).length) _ fun j other => ?_
      rw [GroupStore.unmarked, group, if_neg other, GroupStore.unmarked]
    rw [sum, empty]
    exact Nat.zero_add _
  have size : b'.table.size + 1 = b.table.size := by
    rw [LockTable.size, ← Assoc.length_keys, LockTable.size, ← Assoc.length_keys]
    show b'.table.keys.length + 1 = b.table.keys.length
    rw [keys]
    exact length_filter_ne b.table.keys_nodup mem
  exact {
    mode := by rw [leaves.rules]
    policy := policy
    capacity := by rw [leaves.store, GroupStore.capacity_dropGroup]
    keys := by rw [keys]; exact List.filter_sublist
    groups := by rw [leaves.store]; exact GroupStore.sublist_dropGroup ..
    entries := fun j mem => by
      rw [keys] at mem
      have other : j ≠ k := by simpa using (List.mem_filter.1 mem).2
      rw [leaves.table, LockTable.current_expel, if_neg other.symm]
    fates := fun j => by
      by_cases hj : k = j
      · subst hj
        have out : k ∉ b'.table.keys := by simp [keys]
        rw [fate, Barrier.fate, if_neg out, group, if_pos rfl]
        rfl
      · have other : j ≠ k := fun e => hj e.symm
        refine (fate_congr p (by rw [leaves.rules]) policy ?_ ?_).symm
        · simp [keys, other]
        · rw [group, if_neg hj]
    handed := by rw [leaves.handed, silent]
    waiting := waiting.symm
    content := by rw [leaves.store]; exact (GroupStore.messages_dropGroup ..).1
    messages := by rw [leaves.store]; exact (GroupStore.messages_dropGroup ..).2
    accepted := by rw [leaves.stats, accepted]
    released := by rw [leaves.stats, released, waiting]
    groupsRemoved := by rw [leaves.stats, leaves.store, groupsRemoved]
    staleKeys := fun _ => by rw [leaves.stats, staleKeys, counter_makes_up _ size] }

variable [BEq M] [ReflBEq M] {g : Group K M} {m : M} {rest : List M}

/-- A visit that hands out a message. -/
theorem of_release (mem : k ∈ b.table.keys) (group : b.store.group k = some g) (may : p g = true)
    (unmarked : g.unmarked = m :: rest)
    (leaves : b.Leaves b' (b.table.touch k) (b.store.handOut b.rules.mode k m) (b.stats.bump .released)
      [.released k m]) : b.Turned p b' [(k, m)] := by
  obtain ⟨f, handOut, given⟩ : ∃ f, b.store.handOut b.rules.mode k m = b.store.change k f ∧
      f g = g.give b.rules.mode m rest := GroupStore.handOut_eq_change _ unmarked _ _
  have entries : b'.table.entries = b.table.entries := by rw [leaves.table, LockTable.entries_touch mem]
  have keys : b'.table.keys = b.table.keys := congrArg Assoc.keys entries
  have policy : b'.table.policy = b.table.policy := by rw [leaves.table, LockTable.policy_touch]
  have store : b'.store = b.store.change k f := leaves.store.trans handOut
  have left : b'.store.group k = some (g.give b.rules.mode m rest) := by
    rw [leaves.store, GroupStore.group_handOut _ group unmarked, if_pos rfl]
  have others (j : K) (hj : k ≠ j) : b'.store.group j = b.store.group j := by
    rw [leaves.store, GroupStore.group_handOut _ group unmarked, if_neg hj]
  have waiting : b'.waiting + 1 = b.waiting := by
    have sum : b.waiting + (b'.store.unmarked k).length = b'.waiting + (b.store.unmarked k).length := by
      rw [Barrier.waiting, Barrier.waiting, keys]
      refine sum_map_change b.table.keys_nodup mem (fun j => (b.store.unmarked j).length)
        (fun j => (b'.store.unmarked j).length) fun j other => ?_
      rw [GroupStore.unmarked, others j other, GroupStore.unmarked]
    rw [GroupStore.unmarked_of_group group, GroupStore.unmarked_of_group left, Group.unmarked_give, unmarked,
      List.length_cons] at sum
    omega
  have smaller : (f g).size ≤ g.size := by
    rw [given]
    exact Group.size_give_le unmarked
  exact {
    mode := by rw [leaves.rules]
    policy := policy
    capacity := by rw [store, GroupStore.capacity_change]
    keys := by rw [keys]
    groups := by rw [store, GroupStore.keys_change group]
    entries := fun j _ => congrArg (·.get? j) entries
    fates := fun j => by
      by_cases hj : k = j
      · subst hj
        have mem' : k ∈ b'.table.keys := keys ▸ mem
        rw [fate, fate, if_pos mem, if_pos mem', group, left, leaves.rules, policy, underKey_one, if_pos rfl]
        exact Group.settle_of_released may unmarked
      · rw [underKey_one, if_neg hj, Outlook.after_nil]
        exact (fate_congr p (by rw [leaves.rules]) policy (by rw [keys]) (others j hj)).symm
    handed := by rw [leaves.handed]; rfl
    waiting := waiting
    content := by rw [store]; exact (GroupStore.messages_change group smaller).1
    messages := by rw [store]; exact (GroupStore.messages_change group smaller).2
    accepted := by rw [leaves.stats]; rfl
    released := by rw [leaves.stats]; exact counter_makes_up _ waiting
    groupsRemoved := by
      rw [leaves.stats, store, ← Assoc.length_keys, GroupStore.keys_change group, Assoc.length_keys]
      rfl
    staleKeys := fun _ => by
      rw [leaves.stats, LockTable.size, entries]
      rfl }

end Turned

/-! ## visits and walks keep to it -/

/-- The messages that a visit to a key hands out, with the key. -/
def given (k : K) : Outcome (BarrierError K) (Visit M) → List (K × M)
  | .ok (.released m) => [(k, m)]
  | _ => []

/-- A key for which nothing is left to do. -/
def SettledAt (p : Group K M → Bool) (b : Barrier K M) (k : K) : Prop :=
  b.fate p k = ⟨[], b.store.group k, k ∈ b.table.keys⟩

end Barrier

/-- Wherever the rule answers at all, it answers by a predicate. -/
def Rules.AnswerBy (rules : Rules K M) (p : Group K M → Bool) : Prop :=
  ∀ g now a, rules.release g now = .ok a → a = p g

namespace Barrier

variable [BEq M] {p : Group K M → Bool} {envs : Nat → Surroundings} {b b' : Barrier K M} {k : K} {ks : List K}

omit [BEq M] in
theorem SettledAt.congr (settled : b.SettledAt p k) (rules : b'.rules = b.rules)
    (policy : b'.table.policy = b.table.policy) (group : b'.store.group k = b.store.group k)
    (current : b'.table.current k = b.table.current k) : b'.SettledAt p k := by
  have tracked : k ∈ b'.table.keys ↔ k ∈ b.table.keys := by rw [LockTable.mem_keys_iff, current, LockTable.mem_keys_iff]
  rw [SettledAt, fate_congr p (by rw [rules]) policy tracked group, group, decide_eq_decide.2 tracked]
  exact settled

/-- A key that was visited in vain is settled. -/
theorem Visits.settled {v : Visit M} (answers : b.rules.AnswerBy p) (mem : k ∈ b.table.keys)
    (visits : b.Visits envs k (.ok v) b') (nothing : ∀ m, v ≠ .released m) : b'.SettledAt p k := by
  have touched (h : b'.table = b.table.touch k) : k ∈ b'.table.keys := by rw [h, LockTable.keys_touch mem]; exact mem
  have expelled (h : b'.table = b.table.expel k) : k ∉ b'.table.keys := by rw [h, LockTable.keys_expel]; simp
  cases visits with
  | held group judged leaves =>
    have mem' := touched leaves.table
    rw [SettledAt, fate, if_pos mem', leaves.store, group, decide_eq_true mem']
    exact Group.settle_of_held (answers _ _ _ judged).symm
  | released => exact absurd rfl (nothing _)
  | drained _ _ _ leaves | forgotten _ _ leaves =>
    have out := expelled leaves.table
    rw [SettledAt, fate, if_neg out, decide_eq_false out]
  | missed tolerant group leaves =>
    have mem' := touched leaves.table
    rw [SettledAt, fate, if_pos mem', leaves.store, group, leaves.table, LockTable.policy_touch, tolerant,
      ← leaves.table, decide_eq_true mem']
    rfl

variable [ReflBEq M]

theorem Visits.turned {a : Outcome (BarrierError K) (Visit M)} (answers : b.rules.AnswerBy p)
    (mem : k ∈ b.table.keys) (visits : b.Visits envs k a b') : b.Turned p b' (given k a) := by
  cases visits with
  | failed _ leaves | held _ _ leaves => exact .of_touch mem leaves rfl rfl rfl rfl fun _ => rfl
  | missed tolerant _ leaves =>
    refine .of_touch mem leaves rfl rfl rfl rfl fun validated => ?_
    rw [tolerant] at validated
    cases validated
  | released group judged unmarked leaves =>
    exact .of_release mem group (answers _ _ _ judged).symm unmarked leaves
  | drained group judged unmarked leaves =>
    refine .of_expel mem leaves rfl ?_ ?_ rfl rfl (counter_makes_up _ (GroupStore.size_dropGroup group)) ?_
    · rw [fate, if_pos mem, group]
      exact Group.settle_of_drained (answers _ _ _ judged).symm unmarked
    · rw [GroupStore.unmarked_of_group group, unmarked]
    · exact (UInt64.add_assoc ..).symm
  | forgotten validated group leaves =>
    have same : b.store.dropGroup k = b.store := GroupStore.dropGroup_of_none group
    have dropped : b.Leaves b' (b.table.expel k) (b.store.dropGroup k) (b.stats.bump .staleKeys) [.staleKey k] := by
      rw [same]
      exact leaves
    refine .of_expel mem dropped rfl ?_ ?_ rfl rfl ?_ ?_
    · rw [fate, if_pos mem, group, validated]
      rfl
    · rw [GroupStore.unmarked, group]
      rfl
    · rw [same]
      rfl
    · show b.stats.staleKeys + 1 + b.stats.groupsRemoved = b.stats.staleKeys + b.stats.groupsRemoved + 1
      rw [UInt64.add_assoc, UInt64.add_comm 1, ← UInt64.add_assoc]

/-! ### walks -/

omit [ReflBEq M] in
/-- After a walk in vain all keys on it are settled. -/
theorem Walks.settled {a : Outcome (BarrierError K) (Option M)} (answers : b.rules.AnswerBy p) (nodup : ks.Nodup)
    (tracked : ∀ j ∈ ks, j ∈ b.table.keys) (walks : Walks envs ks b a b') (none : a = .ok none) :
    ∀ j ∈ ks, b'.SettledAt p j := by
  induction walks with
  | nil => exact nofun
  | failed | released => cases none
  | @onward k rest b v b₁ a b₂ visit nothing walk ih =>
    obtain ⟨off, nodup'⟩ := List.nodup_cons.1 nodup
    have answers' : b₁.rules.AnswerBy p := by rw [visit.rules]; exact answers
    intro j mem
    rcases List.mem_cons.1 mem with rfl | mem
    · obtain ⟨group, current⟩ := walk.elsewhere off
      exact (visit.settled answers (tracked j List.mem_cons_self) nothing).congr walk.rules walk.policy group current
    · exact ih answers' nodup' (visit.ahead nodup tracked) none j mem

/-- The message that a walk has brought. -/
def brought : Outcome (BarrierError K) (Option M) → List M
  | .ok (some m) => [m]
  | _ => []

theorem Walks.turned {a : Outcome (BarrierError K) (Option M)} (answers : b.rules.AnswerBy p) (nodup : ks.Nodup)
    (tracked : ∀ j ∈ ks, j ∈ b.table.keys) (walks : Walks envs ks b a b') :
    ∃ out, b.Turned p b' out ∧ out.map Prod.snd = brought a := by
  induction walks with
  | nil => exact ⟨[], .refl p _, rfl⟩
  | failed visit => exact ⟨_, visit.turned answers (tracked _ List.mem_cons_self), rfl⟩
  | released visit => exact ⟨_, visit.turned answers (tracked _ List.mem_cons_self), rfl⟩
  | @onward k rest b v b₁ a b₂ visit nothing walk ih =>
    have answers' : b₁.rules.AnswerBy p := by rw [visit.rules]; exact answers
    obtain ⟨out, turned, gives⟩ := ih answers' (List.nodup_cons.1 nodup).2 (visit.ahead nodup tracked)
    have first : b.Turned p b₁ (given k (.ok v)) := visit.turned answers (tracked k List.mem_cons_self)
    have silent : given k (.ok v : Outcome (BarrierError K) (Visit M)) = [] := by
      cases v with
      | released m => exact absurd rfl (nothing m)
      | _ => rfl
    rw [silent] at first
    exact ⟨out, first.trans turned, gives⟩

/-! ## where visits end -/

omit [BEq M] [ReflBEq M]

/-- What visits have made of a key that is settled is its fate. -/
theorem Turned.fate_of_settled {out : List (K × M)} (turned : b.Turned p b' out) (settled : b'.SettledAt p k) :
    b.fate p k = ⟨underKey k out, b'.store.group k, k ∈ b'.table.keys⟩ := by
  rw [turned.fates, settled, Outlook.after, List.append_nil]

/-- Visits that leave all keys settled leave the same, and have handed out the same for every key. -/
structure Agree (b' b'' : Barrier K M) (out out' : List (K × M)) : Prop where
  length : out'.length = out.length
  messages : ∀ k, underKey k out' = underKey k out
  store : b''.store = b'.store
  entries : b''.table.entries = b'.table.entries
  released : b''.stats.released = b'.stats.released
  groupsRemoved : b''.stats.groupsRemoved = b'.stats.groupsRemoved
  stats : b'.table.policy = .validated → b''.stats = b'.stats

theorem Turned.unique {b'' : Barrier K M} {out out' : List (K × M)} (turned : b.Turned p b' out)
    (turned' : b.Turned p b'' out') (settled : ∀ k, b'.SettledAt p k) (settled' : ∀ k, b''.SettledAt p k) :
    Agree b' b'' out out' := by
  have same (k : K) : underKey k out' = underKey k out ∧ b''.store.group k = b'.store.group k ∧
      (k ∈ b''.table.keys ↔ k ∈ b'.table.keys) := by
    have fate := (turned'.fate_of_settled (settled' k)).symm.trans (turned.fate_of_settled (settled k))
    obtain ⟨messages, group, tracked⟩ := Outlook.mk.inj fate
    exact ⟨messages, group, decide_eq_decide.1 tracked⟩
  have keys : b''.table.keys = b'.table.keys :=
    eq_of_sublist b.table.keys_nodup turned'.keys turned.keys fun k => (same k).2.2
  have entries : b''.table.entries = b'.table.entries := by
    refine Assoc.ext_keys keys fun k => ?_
    show b''.table.current k = b'.table.current k
    by_cases mem : k ∈ b'.table.keys
    · rw [turned'.entries k (keys ▸ mem), turned.entries k mem]
    · rw [LockTable.current_eq_none_iff.2 mem, LockTable.current_eq_none_iff.2 (keys ▸ mem)]
  have groups : b''.store.groups = b'.store.groups := by
    refine Assoc.ext_keys (eq_of_sublist b.store.groups.keys_nodup turned'.groups turned.groups fun k => ?_)
      fun k => (same k).2.1
    rw [← Assoc.get?_isSome, ← Assoc.get?_isSome]
    exact Bool.eq_iff_iff.1 (congrArg Option.isSome (same k).2.1)
  have content : b''.store.content = b'.store.content := GroupStore.content_congr groups
  have waiting : b''.waiting = b'.waiting := by
    simp only [Barrier.waiting, keys, GroupStore.unmarked, GroupStore.group, groups]
  have released : b''.stats.released = b'.stats.released := by
    have sum := turned'.released.trans turned.released.symm
    rwa [waiting, UInt64.add_left_inj] at sum
  have groupsRemoved : b''.stats.groupsRemoved = b'.stats.groupsRemoved := by
    have sum := turned'.groupsRemoved.trans turned.groupsRemoved.symm
    rwa [groups, UInt64.add_left_inj] at sum
  refine ⟨?_, fun k => (same k).1, ?_, entries, released, groupsRemoved, fun validated => ?_⟩
  · have := turned.waiting
    have := turned'.waiting
    omega
  · refine GroupStore.ext_groups (turned'.capacity.trans turned.capacity.symm) groups ?_
    rw [turned'.messages, turned.messages, content]
  · rw [turned.policy] at validated
    have sum := (turned'.staleKeys validated).trans (turned.staleKeys validated).symm
    rw [LockTable.size, entries, ← LockTable.size, UInt64.add_left_inj, groupsRemoved, UInt64.add_left_inj] at sum
    exact Stats.ext_counters (turned'.accepted.trans turned.accepted.symm) released groupsRemoved sum

/-! ## drains -/

variable [BEq M] [ReflBEq M]

omit [ReflBEq M] in
/-- Where no call and no judgement fails, no walk does. -/
theorem Walks.not_failed {a : Outcome (BarrierError K) (Option M)} (quiet : ∀ n method, (envs n).fault method = none)
    (rule : b.rules.release = .when p) (walks : Walks envs ks b a b') : ∃ answer, a = .ok answer := by
  induction walks with
  | nil => exact ⟨_, rfl⟩
  | released => exact ⟨_, rfl⟩
  | onward visit _ _ ih => exact ih (by rw [visit.rules]; exact rule)
  | failed visit =>
    exfalso
    cases visit with
    | failed trouble =>
      cases trouble with
      | store fails => rw [quiet] at fails; cases fails
      | rule _ judged => rw [rule] at judged; cases judged

omit [DecidableEq K] [BEq M] [ReflBEq M] in
theorem answerBy_when {rules : Rules K M} (rule : rules.release = .when p) : rules.AnswerBy p := by
  intro g now a judged
  rw [rule] at judged
  cases judged
  rfl

/-- A pull that brings nothing leaves all keys settled. -/
theorem pull_turned {env : Surroundings} (quiet : ∀ method, env.fault method = none) (rule : b.rules.release = .when p)
    (order : WalkOrder K) :
    ∃ answer out, (b.pull env order).1 = .ok answer ∧ b.Turned p (b.pull env order).2 out ∧
      out.map Prod.snd = answer.toList ∧ (b.pull env order).2.rules = b.rules ∧
      (answer = none → ∀ k, (b.pull env order).2.SettledAt p k) := by
  have walks := walks_pullInTurn (fun _ => env) order b
  rw [← pull_eq_pullInTurn] at walks
  generalize (b.pull env order).1 = a at walks ⊢
  generalize (b.pull env order).2 = b' at walks ⊢
  have nodup := order.nodup_arrange b.table.keys_nodup
  have tracked : ∀ k ∈ order.arrange b.table.keys, k ∈ b.table.keys := fun k => order.mem_arrange.1
  have answers := answerBy_when rule
  obtain ⟨answer, rfl⟩ := walks.not_failed (fun _ => quiet) rule
  obtain ⟨out, turned, gives⟩ := walks.turned answers nodup tracked
  refine ⟨answer, out, rfl, turned, ?_, walks.rules, ?_⟩
  · rw [gives]
    cases answer <;> rfl
  · rintro rfl k
    by_cases hk : k ∈ b.table.keys
    · exact walks.settled answers nodup tracked rfl k (order.mem_arrange.2 hk)
    · have out : k ∉ b'.table.keys := fun hk' => hk (turned.keys.subset hk')
      rw [SettledAt, fate, if_neg out, decide_eq_false out]

/-- A drain keeps to it. If it ends by itself it leaves all keys settled, and with pulls enough it does. -/
theorem drain_turns (choices : List (Surroundings × WalkOrder K)) (b : Barrier K M)
    (quiet : ∀ c ∈ choices, ∀ method, c.1.fault method = none) (rule : b.rules.release = .when p) :
    (∃ out, (b.drain choices).1 = out.map Prod.snd ∧ b.Turned p (b.drain choices).2.2 out) ∧
      ((b.drain choices).2.1 = .empty → ∀ k, (b.drain choices).2.2.SettledAt p k) ∧
      (b.waiting < choices.length → (b.drain choices).2.1 = .empty) := by
  induction choices generalizing b with
  | nil => exact ⟨⟨[], rfl, .refl p b⟩, nofun, fun enough => absurd enough (Nat.not_lt_zero _)⟩
  | cons c rest ih =>
    obtain ⟨env, order⟩ := c
    obtain ⟨answer, out, pulled, turned, gives, rules, settled⟩ :=
      pull_turned (quiet _ List.mem_cons_self) rule order
    obtain ⟨b', left⟩ : ∃ b', b.pull env order = (.ok answer, b') := ⟨_, Prod.ext pulled rfl⟩
    simp only [left] at turned rules settled
    simp only [drain, left]
    cases answer with
    | none => exact ⟨⟨out, gives.symm, turned⟩, fun _ => settled rfl, fun _ => rfl⟩
    | some m =>
      obtain ⟨⟨out', gives', turned'⟩, settles, ends⟩ :=
        ih b' (fun c hc => quiet c (List.mem_cons_of_mem _ hc)) (by rw [rules]; exact rule)
      refine ⟨⟨out ++ out', ?_, turned.trans turned'⟩, settles, fun enough => ends ?_⟩
      · rw [List.map_append, gives]
        exact congrArg (m :: ·) gives'
      · have one : out.length = 1 := by rw [← List.length_map Prod.snd, gives]; rfl
        have := turned.waiting
        rw [List.length_cons] at enough
        omega

/-- A drain with pulls enough ends with all keys settled. -/
theorem drain_turned (choices : List (Surroundings × WalkOrder K)) (b : Barrier K M)
    (quiet : ∀ c ∈ choices, ∀ method, c.1.fault method = none) (rule : b.rules.release = .when p)
    (enough : b.waiting < choices.length) :
    (b.drain choices).2.1 = .empty ∧ (∀ k, (b.drain choices).2.2.SettledAt p k) ∧
      ∃ out, (b.drain choices).1 = out.map Prod.snd ∧ b.Turned p (b.drain choices).2.2 out := by
  obtain ⟨turned, settles, ends⟩ := drain_turns choices b quiet rule
  exact ⟨ends enough, settles (ends enough), turned⟩

/-- **Draining in any order.** Take any barrier whose rule answers by a predicate on the group, and pull until nothing
comes, each pull visiting the keys in an order of its own. With more pulls allowed than unmarked messages wait under tracked
keys, the drain ends by itself and hands out at most these. What it hands out for a key, which group remains, and whether
the key remains, is what `outlook` makes of the group of this key alone; keys that are not tracked are left alone. Drains
in other orders agree with it. -/
theorem drain_confluent (b : Barrier K M) (p : Group K M → Bool) (rule : b.rules.release = .when p)
    (choices : List (Surroundings × WalkOrder K)) (quiet : ∀ c ∈ choices, ∀ method, c.1.fault method = none)
    (enough : b.waiting < choices.length) :
    let ms := (b.drain choices).1
    let b' := (b.drain choices).2.2
    (b.drain choices).2.1 = .empty ∧ ms.length ≤ b.waiting ∧
    ∃ out, b'.handed = b.handed ++ out ∧ ms = out.map Prod.snd ∧
      (∀ k ∈ b.table.keys, outlook b.rules.mode b.table.policy p (b.store.group k) =
        ⟨underKey k out, b'.store.group k, k ∈ b'.table.keys⟩) ∧
      (∀ k ∉ b.table.keys, underKey k out = [] ∧ b'.store.group k = b.store.group k ∧ k ∉ b'.table.keys) ∧
      (∀ k ∈ b'.table.keys, b'.table.current k = b.table.current k) ∧
      ∀ choices' : List (Surroundings × WalkOrder K), (∀ c ∈ choices', ∀ method, c.1.fault method = none) →
        b.waiting < choices'.length → (b.drain choices').2.1 = .empty ∧
          ∃ out', (b.drain choices').2.2.handed = b.handed ++ out' ∧ (b.drain choices').1 = out'.map Prod.snd ∧
            Agree b' (b.drain choices').2.2 out out' := by
  intro ms b'
  obtain ⟨last, settled, out, gives, turned⟩ := drain_turned choices b quiet rule enough
  have fate (k : K) := turned.fate_of_settled (settled k)
  refine ⟨last, ?_, out, turned.handed, gives, fun k mem => ?_, fun k off => ?_, turned.entries,
    fun choices' quiet' enough' => ?_⟩
  · have := turned.waiting
    simp only [ms, gives, List.length_map]
    omega
  · have own := fate k
    rwa [Barrier.fate, if_pos mem] at own
  · have own := fate k
    rw [Barrier.fate, if_neg off] at own
    obtain ⟨messages, group, tracked⟩ := Outlook.mk.inj own
    exact ⟨messages.symm, group.symm, of_decide_eq_false tracked.symm⟩
  · obtain ⟨last', settled', out', gives', turned'⟩ := drain_turned choices' b quiet' rule enough'
    exact ⟨last', out', turned'.handed, gives', turned.unique turned' settled settled'⟩

/-- Two orders of the keys bring the messages in different orders and leave the same store. -/
theorem drain_confluent_of_two_orders :
    let b : Barrier Nat Nat := [1, 2, 3, 4, 5].foldl (fun b m => (b.accept {} m).2)
      (new { correlate := fun m => .ok (m % 2), release := .when fun g => 2 ≤ g.size, mode := .remove })
    let listed := List.replicate 6 (({} : Surroundings), WalkOrder.asListed)
    let reversed := List.replicate 6 (({} : Surroundings), ⟨List.reverse, List.reverse_perm⟩)
    b.waiting = 5 ∧ (b.drain listed).1 = [1, 3, 2] ∧ (b.drain reversed).1 = [2, 1, 3] ∧
      (b.drain reversed).2.2.store = (b.drain listed).2.2.store := by
  intro b listed reversed
  have waiting : b.waiting = 5 := by decide
  have enough : b.waiting < 6 := by rw [waiting]; decide
  have quiet (order : WalkOrder Nat) : ∀ c ∈ List.replicate 6 (({} : Surroundings), order), ∀ method,
      c.1.fault method = none := fun c mem _ => by rw [List.eq_of_mem_replicate mem]
  obtain ⟨-, -, out, -, -, -, -, -, others⟩ := drain_confluent b (fun g => 2 ≤ g.size) rfl listed (quiet _) enough
  obtain ⟨-, out', -, -, agree⟩ := others reversed (quiet _) enough
  exact ⟨waiting, by decide, by decide, agree.store⟩

end Barrier

end CorrelationBarrier
