import CorrelationBarrier.Barrier.Shared

/-!
# What calls do to the groups

A call on the store of a barrier replies with a failure and changes nothing, or it takes effect on the group of its key.

* `onStore_error`, `onStore_ok` — the two cases for any call;
* `group_add`, `group_change`, `group_dropGroup` — the groups after each effect;
* `Shared.group_perform_of_ne` — the groups of other keys stay as they are;
* `Shared.perform_congr` — what the reply and the effect of a call depend on.
-/

namespace CorrelationBarrier

variable {K M : Type} [DecidableEq K]

/-- Whether a call reads the clock. -/
def Request.timed : Request K M → Bool
  | .add _ _ | .clock => true
  | _ => false

namespace GroupStore

theorem group_add {s s' : GroupStore K M} {now : Instant} {k : K} {m : M} (h : s.add now k m = .ok s') (j : K) :
    s'.group j = if k = j then some (((s.group k).getD { key := k, createdAt := now, updatedAt := now }).push now m)
      else s.group j := by
  unfold add at h
  split at h
  · cases h
  · cases h
    exact Assoc.get?_set ..

theorem group_change (s : GroupStore K M) (k : K) (f : Group K M → Group K M) (j : K) :
    (s.change k f).group j = if k = j then (s.group k).map f else s.group j := by
  unfold change
  cases hg : s.group k with
  | none =>
    by_cases h : k = j
    · subst h
      simp [hg]
    · simp [h]
  | some g => exact Assoc.get?_set ..

theorem isSome_group_change (s : GroupStore K M) (k : K) (f : Group K M → Group K M) (j : K) :
    ((s.change k f).group j).isSome = (s.group j).isSome := by
  rw [group_change]
  by_cases h : k = j
  · rw [if_pos h, ← h, Option.isSome_map]
  · rw [if_neg h]

theorem group_dropGroup (s : GroupStore K M) (k j : K) :
    (s.dropGroup k).group j = if k = j then none else s.group j := by
  unfold dropGroup
  cases hg : s.group k with
  | none =>
    by_cases h : k = j
    · subst h
      simp [hg]
    · simp [h]
  | some g => exact Assoc.get?_erase ..

end GroupStore

namespace Shared

variable {env : Surroundings} {s : Shared K M}

/-! ## calls that fail and calls that take effect -/

section OnStore

variable {α : Type} {method : StoreMethod} {k : K} {effect : GroupStore K M → Except StoreError (α × GroupStore K M)}

omit [DecidableEq K] in
/-- A call that fails leaves the store as it is. -/
theorem onStore_error {f : Failure StoreError} (h : (s.onStore env method k effect).1 = .error f) :
    (s.onStore env method k effect).2.store = s.store := by
  unfold onStore at h ⊢
  cases hf : env.fault method with
  | some fault => rfl
  | none =>
    simp only [hf] at h ⊢
    cases he : effect s.store with
    | error e => rfl
    | ok r => simp [he] at h

omit [DecidableEq K] in
/-- A call that succeeds takes effect. -/
theorem onStore_ok {a : α} (h : (s.onStore env method k effect).1 = .ok a) :
    env.fault method = none ∧ effect s.store = .ok (a, (s.onStore env method k effect).2.store) := by
  unfold onStore at h ⊢
  cases hf : env.fault method with
  | some fault => simp [hf] at h
  | none =>
    simp only [hf] at h ⊢
    cases he : effect s.store with
    | error e => simp [he, Outcome.failed] at h
    | ok r =>
      simp only [he, Except.ok.injEq] at h
      exact ⟨trivial, by rw [← h]⟩

end OnStore

variable [BEq M] {k : K} {m : M}

theorem store_perform_group : (perform env (.group k) s).2.store = s.store := by
  cases hr : (perform env (.group k) s).1 with
  | error f => exact onStore_error hr
  | ok r => exact (Prod.mk.inj (Except.ok.inj (onStore_ok hr).2)).2.symm

theorem perform_group_ok {r : Option (Group K M)} (h : (perform env (.group k) s).1 = .ok r) :
    env.fault .group = none ∧ s.store.group k = r :=
  ⟨(onStore_ok h).1, (Prod.mk.inj (Except.ok.inj (onStore_ok h).2)).1⟩

theorem perform_group_of_no_fault (h : env.fault .group = none) :
    (perform env (.group k) s).1 = .ok (s.store.group k) := by
  show (s.onStore env .group k _).1 = _
  unfold onStore
  rw [h]

theorem perform_group_of_fault {fault : Fault} (h : env.fault .group = some fault) :
    (perform env (.group k) s).1 = .error fault.failure := by
  show (s.onStore env .group k _).1 = _
  unfold onStore
  rw [h]

theorem perform_add_ok (h : (perform env (.add k m) s).1 = .ok ()) :
    s.store.add env.now k m = .ok (perform env (.add k m) s).2.store := by
  have he := (onStore_ok h).2
  cases ha : s.store.add env.now k m with
  | error e => simp [ha, Except.map] at he
  | ok store =>
    simp only [ha, Except.map, Except.ok.injEq, Prod.mk.injEq, true_and] at he
    rw [he]
    rfl

theorem perform_remove_ok (h : (perform env (.remove k m) s).1 = .ok ()) :
    (perform env (.remove k m) s).2.store = s.store.remove k m :=
  (Prod.mk.inj (Except.ok.inj (onStore_ok h).2)).2.symm

theorem perform_mark_ok (h : (perform env (.mark k m) s).1 = .ok ()) :
    (perform env (.mark k m) s).2.store = s.store.mark k m :=
  (Prod.mk.inj (Except.ok.inj (onStore_ok h).2)).2.symm

theorem perform_dropGroup_ok (h : (perform env (.dropGroup k) s).1 = .ok ()) :
    (perform env (.dropGroup k) s).2.store = s.store.dropGroup k :=
  (Prod.mk.inj (Except.ok.inj (onStore_ok h).2)).2.symm

/-- A call changes at most the group of its key. -/
theorem group_perform_of_ne {c : Request K M} {j : K} (h : ∀ method, c.method? ≠ some (method, j)) :
    (perform env c s).2.store.group j = s.store.group j := by
  cases c with
  | clock | count | report => rfl
  | group k => rw [store_perform_group]
  | add k m =>
    have hk : k ≠ j := fun e => h .add (by rw [e]; rfl)
    cases hr : (perform env (.add k m) s).1 with
    | error f => exact congrArg (·.group j) (onStore_error hr)
    | ok r => rw [GroupStore.group_add (perform_add_ok hr), if_neg hk]
  | remove k m =>
    have hk : k ≠ j := fun e => h .remove (by rw [e]; rfl)
    cases hr : (perform env (.remove k m) s).1 with
    | error f => exact congrArg (·.group j) (onStore_error hr)
    | ok r => rw [perform_remove_ok hr, GroupStore.remove, GroupStore.group_change, if_neg hk]
  | mark k m =>
    have hk : k ≠ j := fun e => h .mark (by rw [e]; rfl)
    cases hr : (perform env (.mark k m) s).1 with
    | error f => exact congrArg (·.group j) (onStore_error hr)
    | ok r => rw [perform_mark_ok hr, GroupStore.mark, GroupStore.group_change, if_neg hk]
  | dropGroup k =>
    have hk : k ≠ j := fun e => h .dropGroup (by rw [e]; rfl)
    cases hr : (perform env (.dropGroup k) s).1 with
    | error f => exact congrArg (·.group j) (onStore_error hr)
    | ok r => rw [perform_dropGroup_ok hr, GroupStore.group_dropGroup, if_neg hk]

/-! ## what a call depends on -/

omit [DecidableEq K] [BEq M] in
theorem onStore_congr {α : Type} {method : StoreMethod}
    {effect effect' : GroupStore K M → Except StoreError (α × GroupStore K M)} {env' : Surroundings} {s' : Shared K M}
    (fault : env.fault method = env'.fault method)
    (effects : effect s.store = effect' s'.store) (store : s.store = s'.store) :
    (s.onStore env method k effect).1 = (s'.onStore env' method k effect').1 ∧
      (s.onStore env method k effect).2.store = (s'.onStore env' method k effect').2.store := by
  unfold onStore
  simp only [fault, effects]
  cases env'.fault method with
  | some f => exact ⟨rfl, store⟩
  | none =>
    cases effect' s'.store with
    | error e => exact ⟨rfl, store⟩
    | ok r => exact ⟨rfl, rfl⟩

/-- A call depends on the groups, on whether its method is to fail, and on the time if it reads the clock. -/
theorem perform_congr {env' : Surroundings} {s' : Shared K M} {c : Request K M}
    (fault : ∀ method k, c.method? = some (method, k) → env.fault method = env'.fault method)
    (now : c.timed → env.now = env'.now) (store : s.store = s'.store) :
    (s.perform env c).1 = (s'.perform env' c).1 ∧ (s.perform env c).2.store = (s'.perform env' c).2.store := by
  cases c with
  | clock => exact ⟨now rfl, store⟩
  | count | report => exact ⟨rfl, store⟩
  | add k m => exact onStore_congr (fault .add k rfl) (by rw [store, now rfl]) store
  | group k => exact onStore_congr (fault .group k rfl) (by rw [store]) store
  | remove k m => exact onStore_congr (fault .remove k rfl) (by rw [store]) store
  | mark k m => exact onStore_congr (fault .mark k rfl) (by rw [store]) store
  | dropGroup k => exact onStore_congr (fault .dropGroup k rfl) (by rw [store]) store

end Shared

end CorrelationBarrier
