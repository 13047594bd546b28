import CorrelationBarrier.Proofs.Barrier.Calls

/-!
# What requests do to a store

* `Group.takeEqual_eq`, `Group.remove_eq`, `Group.mark_eq` — which message of a group is removed or marked, where several are
  equal;
* `Shared.handle` — what requests leave that are answered one after the other;
* `Shared.Effect` — what a request does to the store, one rule for each way; `effect_perform` shows that it is one of them.
-/

namespace CorrelationBarrier

variable {K M : Type}

/-! ## searching by equality -/

namespace Group

variable [BEq M]

/-- The first equal element is taken out, if there is one. -/
theorem takeEqual_eq (m : M) (l : List M) :
    takeEqual m l = (l.find? (· == m)).map fun x => (x, l.eraseP (· == m)) := by
  induction l with
  | nil => rfl
  | cons y l ih =>
    by_cases equal : y == m
    · simp [takeEqual, equal]
    · rw [takeEqual, if_neg equal, ih, List.find?_cons_of_neg (by simpa using equal),
        List.eraseP_cons_of_neg (by simpa using equal), Option.map_map]
      rfl

theorem find?_isNone_iff {m : M} {l : List M} : l.find? (· == m) = none ↔ l.any (· == m) = false := by
  rw [List.find?_eq_none, List.any_eq_false]

/-- The first equal unmarked message is removed, and only if there is none, the first equal marked one. -/
theorem remove_eq (g : Group K M) (m : M) :
    g.remove m = if g.unmarked.any (· == m) then { g with unmarked := g.unmarked.eraseP (· == m) }
      else { g with marked := g.marked.eraseP (· == m) } := by
  unfold remove
  rw [takeEqual_eq, takeEqual_eq]
  cases unmarked : g.unmarked.find? (· == m) with
  | some x =>
    have equal : (x == m) = true := by simpa using List.find?_some unmarked
    have found : g.unmarked.any (· == m) = true := List.any_eq_true.2 ⟨x, List.mem_of_find?_eq_some unmarked, equal⟩
    rw [if_pos found]
    rfl
  | none =>
    rw [if_neg (by rw [find?_isNone_iff.1 unmarked]; exact Bool.false_ne_true)]
    cases marked : g.marked.find? (· == m) with
    | some x => rfl
    | none =>
      have same : g.marked.eraseP (· == m) = g.marked :=
        List.eraseP_of_forall_not fun x hx => List.find?_eq_none.1 marked x hx
      rw [same]
      rfl

/-- The first equal unmarked message goes to the end of the marked ones. -/
theorem mark_eq (g : Group K M) (m : M) :
    g.mark m = (g.unmarked.find? (· == m)).elim g fun x =>
      { g with unmarked := g.unmarked.eraseP (· == m), marked := g.marked ++ [x] } := by
  unfold mark
  rw [takeEqual_eq]
  cases g.unmarked.find? (· == m) <;> rfl

theorem marked_mark (g : Group K M) (m : M) : g.marked <+: (g.mark m).marked := by
  rw [mark_eq]
  cases g.unmarked.find? (· == m) with
  | some x => exact List.prefix_append ..
  | none => exact List.prefix_rfl

theorem marked_remove (g : Group K M) (m : M) :
    (g.remove m).marked = g.marked ∨ (g.remove m).marked = g.marked.eraseP (· == m) := by
  rw [remove_eq]
  split
  · exact .inl rfl
  · exact .inr rfl

end Group

variable [DecidableEq K] [BEq M]

/-! ## requests one after the other -/

/-- A request with the circumstances that it finds. -/
abbrev Posed (K M : Type) := Surroundings × Request K M

namespace Shared

/-- What requests leave of the shared data that are answered one after the other. -/
def handle (d : Shared K M) (calls : List (Posed K M)) : Shared K M := calls.foldl (fun d c => (d.perform c.1 c.2).2) d

theorem handle_append (d : Shared K M) (calls calls' : List (Posed K M)) :
    d.handle (calls ++ calls') = (d.handle calls).handle calls' := List.foldl_append ..

/-- What a request does to the store: nothing, or it takes effect on the group of its key. -/
inductive Effect (d : Shared K M) (env : Surroundings) : (c : Request K M) → c.Reply → GroupStore K M → Prop where
  /-- Only looking up a group, and what is not a call on the store, answers well and does nothing. -/
  | looked {c r} (other : ∀ method j, c.method? = some (method, j) → method = .group) : Effect d env c r d.store
  | refused {k m f} : Effect d env (.add k m) (.error f) d.store
  | notRemoved {k m f} : Effect d env (.remove k m) (.error f) d.store
  | notMarked {k m f} : Effect d env (.mark k m) (.error f) d.store
  | notDropped {k f} : Effect d env (.dropGroup k) (.error f) d.store
  | added {k m s} (add : d.store.add env.now k m = .ok s) : Effect d env (.add k m) (.ok ()) s
  | removed {k m} : Effect d env (.remove k m) (.ok ()) (d.store.remove k m)
  | marked {k m} : Effect d env (.mark k m) (.ok ()) (d.store.mark k m)
  | dropped {k} : Effect d env (.dropGroup k) (.ok ()) (d.store.dropGroup k)

theorem effect_perform (d : Shared K M) (env : Surroundings) (c : Request K M) :
    d.Effect env c (d.perform env c).1 (d.perform env c).2.store := by
  cases c with
  | clock | count | report => exact .looked nofun
  | group k =>
    rw [store_perform_group]
    exact .looked fun method j same => by cases same; rfl
  | add k m =>
    cases reply : (d.perform env (.add k m)).1 with
    | error f => exact onStore_error reply ▸ .refused
    | ok r => exact .added (perform_add_ok reply)
  | remove k m =>
    cases reply : (d.perform env (.remove k m)).1 with
    | error f => exact onStore_error reply ▸ .notRemoved
    | ok r => exact perform_remove_ok reply ▸ .removed
  | mark k m =>
    cases reply : (d.perform env (.mark k m)).1 with
    | error f => exact onStore_error reply ▸ .notMarked
    | ok r => exact perform_mark_ok reply ▸ .marked
  | dropGroup k =>
    cases reply : (d.perform env (.dropGroup k)).1 with
    | error f => exact onStore_error reply ▸ .notDropped
    | ok r => exact perform_dropGroup_ok reply ▸ .dropped

end Shared

end CorrelationBarrier
