import CorrelationBarrier.Proofs.Barrier.Calls
import Mathlib

/-!
# What the groups of a store hold

* `sum_map_filter_ne`, `sum_map_change` — sums over keys when one of them goes or changes;
* `eq_of_sublist` — a list of keys in a given order is known by its members;
* `GroupStore.content` — the number of messages in all groups, as the groups show it. What a call takes away from it, it
  takes off the count of the store: `messages_change`, `messages_dropGroup`.
-/

namespace CorrelationBarrier

variable {K M : Type}

/-! ## lists of keys -/

section Keys

variable [DecidableEq K]

/-- A sum over different keys is the value at one of them and the sum over the others. -/
theorem sum_map_filter_ne {ks : List K} {k : K} (nodup : ks.Nodup) (mem : k ∈ ks) (f f' : K → Nat)
    (same : ∀ j, k ≠ j → f' j = f j) :
    (ks.map f).sum = f k + ((ks.filter fun j => !decide (j = k)).map f').sum := by
  have others : (ks.erase k).map f = (ks.filter fun j => !decide (j = k)).map f' := by
    rw [nodup.erase_eq_filter]
    refine List.map_congr_left fun j hj => (same j ?_).symm
    have ne : j ≠ k := by simpa using (List.mem_filter.1 hj).2
    exact ne.symm
  rw [← others, List.sum_map_erase f mem]

/-- A sum over different keys changes as much as its value at one of them. -/
theorem sum_map_change {ks : List K} {k : K} (nodup : ks.Nodup) (mem : k ∈ ks) (f f' : K → Nat)
    (same : ∀ j, k ≠ j → f' j = f j) : (ks.map f).sum + f' k = (ks.map f').sum + f k := by
  have left := sum_map_filter_ne nodup mem f f' same
  have right := sum_map_filter_ne nodup mem f' f' fun _ _ => rfl
  omega

theorem filter_mem_of_sublist {l l' : List K} (sub : l'.Sublist l) (nodup : l.Nodup) : l.filter (· ∈ l') = l' := by
  induction sub with
  | slnil => rfl
  | @cons l₁ l₂ a sub ih =>
    obtain ⟨out, nodup⟩ := List.nodup_cons.1 nodup
    rw [List.filter_cons_of_neg (by simpa using fun mem => out (sub.subset mem)), ih nodup]
  | @cons_cons l₁ l₂ a sub ih =>
    obtain ⟨out, nodup⟩ := List.nodup_cons.1 nodup
    rw [List.filter_cons_of_pos (by simp)]
    congr 1
    rw [← ih nodup]
    refine List.filter_congr fun j hj => ?_
    have ne : j ≠ a := fun e => out (e ▸ hj)
    simp [ne, hj]

theorem length_filter_ne {ks : List K} {k : K} (nodup : ks.Nodup) (mem : k ∈ ks) :
    (ks.filter fun j => !decide (j = k)).length + 1 = ks.length := by
  have erased : (ks.filter fun j => !decide (j = k)) = ks.erase k := (nodup.erase_eq_filter k).symm
  rw [erased, List.length_erase_add_one mem]

/-- Two sublists of a list of different keys are equal if they have the same members. -/
theorem eq_of_sublist {l l₁ l₂ : List K} (nodup : l.Nodup) (sub₁ : l₁.Sublist l) (sub₂ : l₂.Sublist l)
    (same : ∀ k, k ∈ l₁ ↔ k ∈ l₂) : l₁ = l₂ := by
  rw [← filter_mem_of_sublist sub₁ nodup, ← filter_mem_of_sublist sub₂ nodup]
  exact List.filter_congr fun k _ => decide_eq_decide.2 (same k)

end Keys

variable [DecidableEq K]

/-! ## the content of a store -/

namespace GroupStore

/-- The number of messages in the group of a key. -/
def weight (s : GroupStore K M) (k : K) : Nat := ((s.group k).map (·.size)).getD 0

/-- The number of messages in the groups of the store, as the groups show it. -/
def content (s : GroupStore K M) : Nat := (s.groups.keys.map s.weight).sum

variable {s : GroupStore K M} {k : K} {g : Group K M}

theorem mem_groups_keys (h : s.group k = some g) : k ∈ s.groups.keys :=
  Assoc.get?_isSome.1 (Option.isSome_of_eq_some h)

theorem weight_of_group (h : s.group k = some g) : s.weight k = g.size := by
  rw [weight, h]
  rfl

theorem weight_change_of_ne {f : Group K M → Group K M} {j : K} (h : k ≠ j) : (s.change k f).weight j = s.weight j := by
  rw [weight, group_change, if_neg h, weight]

theorem weight_dropGroup_of_ne {j : K} (h : k ≠ j) : (s.dropGroup k).weight j = s.weight j := by
  rw [weight, group_dropGroup, if_neg h, weight]

theorem dropGroup_of_none (h : s.group k = none) : s.dropGroup k = s := by
  rw [dropGroup, h]

theorem keys_change (h : s.group k = some g) (f : Group K M → Group K M) :
    (s.change k f).groups.keys = s.groups.keys := by
  rw [change, h]
  exact Assoc.keys_set_of_mem (mem_groups_keys h)

theorem keys_dropGroup (h : s.group k = some g) :
    (s.dropGroup k).groups.keys = s.groups.keys.filter fun j => !decide (j = k) := by
  rw [dropGroup, h]
  exact Assoc.keys_erase ..

theorem content_change (h : s.group k = some g) (f : Group K M → Group K M) :
    s.content + (f g).size = (s.change k f).content + g.size := by
  have changed : (s.change k f).group k = some (f g) := by rw [group_change, if_pos rfl, h, Option.map_some]
  rw [content, content, keys_change h, ← weight_of_group h, ← weight_of_group changed]
  exact sum_map_change s.groups.keys_nodup (mem_groups_keys h) _ _ fun j ne => weight_change_of_ne ne

theorem content_dropGroup (h : s.group k = some g) : s.content = g.size + (s.dropGroup k).content := by
  rw [content, content, keys_dropGroup h, ← weight_of_group h]
  exact sum_map_filter_ne s.groups.keys_nodup (mem_groups_keys h) _ _ fun j ne => weight_dropGroup_of_ne ne

omit [DecidableEq K] in
theorem ext_groups {s s' : GroupStore K M} (capacity : s.capacity = s'.capacity) (groups : s.groups = s'.groups)
    (messages : s.messages = s'.messages) : s = s' := by
  cases s
  cases s'
  cases capacity
  cases groups
  cases messages
  rfl

theorem content_congr {s s' : GroupStore K M} (groups : s.groups = s'.groups) : s.content = s'.content := by
  have weights : s.weight = s'.weight := funext fun k => by rw [weight, group, groups, weight, group]
  rw [content, groups, weights, content]

theorem capacity_change (s : GroupStore K M) (k : K) (f : Group K M → Group K M) :
    (s.change k f).capacity = s.capacity := by
  unfold change
  split <;> rfl

theorem capacity_dropGroup (s : GroupStore K M) (k : K) : (s.dropGroup k).capacity = s.capacity := by
  unfold dropGroup
  split <;> rfl

theorem sublist_dropGroup (s : GroupStore K M) (k : K) : (s.dropGroup k).groups.keys.Sublist s.groups.keys := by
  cases h : s.group k with
  | none => rw [dropGroup_of_none h]
  | some g =>
    rw [keys_dropGroup h]
    exact List.filter_sublist

/-- What the groups lose is taken off the count. -/
theorem messages_change (h : s.group k = some g) {f : Group K M → Group K M} (le : (f g).size ≤ g.size) :
    (s.change k f).content ≤ s.content ∧
      (s.change k f).messages = s.messages - (s.content - (s.change k f).content) := by
  have content := content_change h f
  have messages : (s.change k f).messages = s.messages - (g.size - (f g).size) := by rw [change, h]
  rw [messages]
  omega

theorem messages_dropGroup (s : GroupStore K M) (k : K) :
    (s.dropGroup k).content ≤ s.content ∧
      (s.dropGroup k).messages = s.messages - (s.content - (s.dropGroup k).content) := by
  cases h : s.group k with
  | none =>
    rw [dropGroup_of_none h]
    omega
  | some g =>
    have content := content_dropGroup h
    have messages : (s.dropGroup k).messages = s.messages - g.size := by rw [dropGroup, h]
    rw [messages]
    omega

theorem size_dropGroup (h : s.group k = some g) : (s.dropGroup k).groups.size + 1 = s.groups.size := by
  rw [← Assoc.length_keys, keys_dropGroup h, ← Assoc.length_keys]
  exact length_filter_ne s.groups.keys_nodup (mem_groups_keys h)

end GroupStore

end CorrelationBarrier
