import CorrelationBarrier.Proofs.Barrier.Solo
import CorrelationBarrier.Proofs.Store.Effects
import Mathlib.Data.List.Induction
import Mathlib.Data.List.Perm.Basic

/-!
# What a group holds

A group begins with the first message that is added under its key, and ends when it is dropped; it may become empty in
between. What it holds is determined by what was added, removed and marked since it began.

* `Dealing`, `Shared.dealings` — what requests do to the group of a key: the messages that they add, remove and mark;
* `Group.Since` — a group is what given dealings leave of it; `Since.begun`, `Since.push`, `Since.remove` and `Since.mark`
  show it for one dealing more;
* `Deals` — what a request makes of the group of a key, with what it does to it; `deals_perform` shows it of every request;
* `Shared.Life` — the requests during which the group of a key is there; `Shared.since_began`;
* `group_since_began` — the result, for any series of requests.
-/

namespace CorrelationBarrier

variable {K M : Type}

/-! ## dealings -/

/-- What a request does to the group of a key. -/
inductive Dealing (M : Type) where
  | added (now : Instant) (message : M)
  /-- A message that equals the given one was taken out. -/
  | removed (message : M)
  /-- The message was marked. -/
  | marked (message : M)
  deriving DecidableEq

namespace Dealing

/-- The messages that are added, with their times. -/
def arrivals (dealings : List (Dealing M)) : List (Instant × M) :=
  dealings.filterMap fun
    | .added now m => some (now, m)
    | _ => none

/-- The messages that name what is removed. -/
def removals (dealings : List (Dealing M)) : List M :=
  dealings.filterMap fun
    | .removed m => some m
    | _ => none

/-- The messages that are marked. -/
def markings (dealings : List (Dealing M)) : List M :=
  dealings.filterMap fun
    | .marked m => some m
    | _ => none

theorem arrivals_append (dealings dealings' : List (Dealing M)) :
    arrivals (dealings ++ dealings') = arrivals dealings ++ arrivals dealings' := List.filterMap_append

section OneMore

variable (dealings : List (Dealing M)) (now : Instant) (m : M)

@[simp] theorem arrivals_added : arrivals (dealings ++ [.added now m]) = arrivals dealings ++ [(now, m)] :=
  List.filterMap_append

@[simp] theorem arrivals_removed : arrivals (dealings ++ [.removed m]) = arrivals dealings := by simp [arrivals]

@[simp] theorem arrivals_marked : arrivals (dealings ++ [.marked m]) = arrivals dealings := by simp [arrivals]

@[simp] theorem removals_added : removals (dealings ++ [.added now m]) = removals dealings := by simp [removals]

@[simp] theorem removals_removed : removals (dealings ++ [.removed m]) = removals dealings ++ [m] := List.filterMap_append

@[simp] theorem removals_marked : removals (dealings ++ [.marked m]) = removals dealings := by simp [removals]

@[simp] theorem markings_added : markings (dealings ++ [.added now m]) = markings dealings := by simp [markings]

@[simp] theorem markings_removed : markings (dealings ++ [.removed m]) = markings dealings := by simp [markings]

@[simp] theorem markings_marked : markings (dealings ++ [.marked m]) = markings dealings ++ [m] := List.filterMap_append

end OneMore

end Dealing

/-! ## a group and the dealings since it began -/

/-- Finding the first element of a kind and erasing it split the list between them. -/
theorem perm_cons_eraseP {l : List M} {p : M → Bool} {x : M} (first : l.find? p = some x) : l.Perm (x :: l.eraseP p) := by
  obtain ⟨holds, before, after, rfl, none⟩ := List.find?_eq_some_iff_append.1 first
  have erased : (before ++ x :: after).eraseP p = before ++ after := by
    rw [List.eraseP_append_right _ fun y mem => by simpa using none y mem, List.eraseP_cons_of_pos holds]
  rw [erased]
  exact List.perm_middle

namespace Group

variable [BEq M]

/-- A group is what the dealings since it began leave of it. -/
structure Since (g : Group K M) (dealings : List (Dealing M)) : Prop where
  /-- The unmarked messages are in the order in which they came. -/
  ordered : g.unmarked.Sublist ((Dealing.arrivals dealings).map Prod.snd)
  /-- Of what came in, what is not there was taken out, each time one message that equals the named one. -/
  held : ∃ taken, List.Forall₂ (fun x m => (x == m) = true) taken (Dealing.removals dealings) ∧
    ((Dealing.arrivals dealings).map Prod.snd).Perm (g.unmarked ++ g.marked ++ taken)
  /-- The marked messages are in the order in which they were marked. -/
  marking : g.marked.Sublist (Dealing.markings dealings)
  created : (Dealing.arrivals dealings).head?.map Prod.fst = some g.createdAt
  updated : (Dealing.arrivals dealings).getLast?.map Prod.fst = some g.updatedAt

namespace Since

variable {g : Group K M} {dealings : List (Dealing M)} {m : M}

theorem begun (k : K) (now : Instant) (m : M) :
    (({ key := k, createdAt := now, updatedAt := now } : Group K M).push now m).Since [.added now m] :=
  ⟨List.Sublist.refl _, ⟨[], .nil, List.Perm.refl _⟩, List.Sublist.refl _, rfl, rfl⟩

theorem push (since : g.Since dealings) (now : Instant) (m : M) :
    (g.push now m).Since (dealings ++ [.added now m]) := by
  obtain ⟨taken, named, held⟩ := since.held
  refine ⟨?_, ⟨taken, by simpa using named, ?_⟩, by simpa [Group.push] using since.marking, ?_, by simp [Group.push]⟩
  · simpa [Group.push] using since.ordered.append (List.Sublist.refl [m])
  · have moved : (g.unmarked ++ g.marked ++ taken ++ [m]).Perm (g.unmarked ++ [m] ++ g.marked ++ taken) := by
      simp only [List.append_assoc]
      refine List.Perm.append_left g.unmarked ?_
      rw [← List.append_assoc]
      exact List.perm_append_comm
    simpa [Group.push] using (held.append_right [m]).trans moved
  · obtain ⟨first, head, time⟩ := Option.map_eq_some_iff.1 since.created
    simp [head, time, Group.push]

theorem mark (since : g.Since dealings) {x : M} (first : g.unmarked.find? (· == m) = some x) :
    (g.mark m).Since (dealings ++ [.marked x]) := by
  obtain ⟨taken, named, held⟩ := since.held
  have split := perm_cons_eraseP first
  have left : g.mark m = { g with unmarked := g.unmarked.eraseP (· == m), marked := g.marked ++ [x] } := by
    rw [mark_eq, first, Option.elim_some]
  rw [left]
  refine ⟨?_, ⟨taken, by simpa using named, ?_⟩, ?_, by simpa using since.created, by simpa using since.updated⟩
  · simpa using List.eraseP_sublist.trans since.ordered
  · have moved : (g.unmarked ++ g.marked).Perm (g.unmarked.eraseP (· == m) ++ (g.marked ++ [x])) := by
      refine (split.append_right g.marked).trans ?_
      rw [← List.append_assoc, List.cons_append]
      exact (List.perm_append_singleton x _).symm
    simpa using held.trans (moved.append_right taken)
  · simpa using since.marking.append (List.Sublist.refl [x])

theorem remove (since : g.Since dealings) (found : (g.unmarked ++ g.marked).any (· == m) = true) :
    (g.remove m).Since (dealings ++ [.removed m]) := by
  obtain ⟨taken, named, held⟩ := since.held
  -- Whichever list the message is in, it goes from there to the end of what was taken.
  have goes {x : M} (equal : (x == m) = true) {u k : List M} (split : (g.unmarked ++ g.marked).Perm (x :: (u ++ k))) :
      ∃ taken, List.Forall₂ (fun x m => (x == m) = true) taken (Dealing.removals (dealings ++ [.removed m])) ∧
        ((Dealing.arrivals (dealings ++ [.removed m])).map Prod.snd).Perm (u ++ k ++ taken) := by
    have moved : (g.unmarked ++ g.marked ++ taken).Perm (u ++ k ++ (taken ++ [x])) := by
      refine (split.append_right taken).trans ?_
      rw [← List.append_assoc, List.cons_append]
      exact (List.perm_append_singleton x _).symm
    refine ⟨taken ++ [x], ?_, ?_⟩
    · rw [Dealing.removals_removed]
      exact List.rel_append named (.cons equal .nil)
    · rw [Dealing.arrivals_removed]
      exact held.trans moved
  rw [remove_eq]
  by_cases unmarked : g.unmarked.any (· == m) = true
  · obtain ⟨x, first⟩ := Option.isSome_iff_exists.1 (List.find?_isSome.2 (List.any_eq_true.1 unmarked))
    rw [if_pos unmarked]
    refine ⟨?_, goes (List.find?_some (p := (· == m)) first) ?_, by simpa using since.marking,
      by simpa using since.created, by simpa using since.updated⟩
    · simpa using List.eraseP_sublist.trans since.ordered
    · exact (perm_cons_eraseP first).append_right g.marked
  · have marked : g.marked.any (· == m) = true := by
      rw [List.any_append, Bool.or_eq_true] at found
      exact found.resolve_left unmarked
    obtain ⟨x, first⟩ := Option.isSome_iff_exists.1 (List.find?_isSome.2 (List.any_eq_true.1 marked))
    rw [if_neg unmarked]
    refine ⟨by simpa using since.ordered, goes (List.find?_some (p := (· == m)) first) ?_, ?_,
      by simpa using since.created, by simpa using since.updated⟩
    · exact ((perm_cons_eraseP first).append_left g.unmarked).trans List.perm_middle
    · simpa using List.eraseP_sublist.trans since.marking

end Since

theorem remove_of_not_any {g : Group K M} {m : M} (absent : ¬ (g.unmarked ++ g.marked).any (· == m) = true) :
    g.remove m = g := by
  rw [List.any_append, Bool.or_eq_true, not_or] at absent
  have nowhere : ∀ x ∈ g.marked, ¬ (x == m) = true := fun x mem equal => absent.2 (List.any_eq_true.2 ⟨x, mem, equal⟩)
  rw [remove_eq, if_neg absent.1, List.eraseP_of_forall_not nowhere]

end Group

variable [BEq M]

/-! ## what a request makes of a group -/

/-- `Deals k now dealing o o'`: at `now` a request does `dealing`, which makes `o'` of `o`, the group of `k`. -/
inductive Deals (k : K) (now : Instant) : Option (Dealing M) → Option (Group K M) → Option (Group K M) → Prop where
  | idle {o} : Deals k now none o o
  | added {o m} : Deals k now (some (.added now m)) o
      (some ((o.getD { key := k, createdAt := now, updatedAt := now }).push now m))
  | removed {g : Group K M} {m} (found : (g.unmarked ++ g.marked).any (· == m) = true) :
    Deals k now (some (.removed m)) (some g) (some (g.remove m))
  | marked {g : Group K M} {m x} (first : g.unmarked.find? (· == m) = some x) :
    Deals k now (some (.marked x)) (some g) (some (g.mark m))
  | dropped {o} : Deals k now none o none

namespace Deals

variable {k : K} {now : Instant} {dealing : Option (Dealing M)} {g g' : Group K M} {dealings : List (Dealing M)}

/-- A group begins with a message. -/
theorem begins (deals : Deals k now dealing none (some g)) : g.Since dealing.toList := by
  cases deals with
  | added => exact .begun ..

theorem goesOn (deals : Deals k now dealing (some g) (some g')) (since : g.Since dealings) :
    g'.Since (dealings ++ dealing.toList) := by
  cases deals with
  | idle =>
    rw [Option.toList_none, List.append_nil]
    exact since
  | added => exact since.push ..
  | removed found => exact since.remove found
  | marked first => exact since.mark first

/-- The times of a group move only with a message that is added, and the first one never. -/
theorem times (deals : Deals k now dealing (some g) (some g')) :
    g'.createdAt = g.createdAt ∧ ((∀ m, dealing ≠ some (.added now m)) → g'.updatedAt = g.updatedAt) := by
  cases deals with
  | idle => exact ⟨rfl, fun _ => rfl⟩
  | @added o m => exact ⟨rfl, fun silent => absurd rfl (silent m)⟩
  | @removed g m =>
    rw [Group.remove_eq]
    split <;> exact ⟨rfl, fun _ => rfl⟩
  | @marked g m x first =>
    rw [Group.mark_eq, first]
    exact ⟨rfl, fun _ => rfl⟩

/-- What is added is added at the time of the request. -/
theorem arrivals {o o' : Option (Group K M)} (deals : Deals k now dealing o o') :
    ((Dealing.arrivals dealing.toList).map Prod.fst).Sublist [now] := by
  cases deals with
  | added => exact List.Sublist.refl _
  | idle | removed | marked | dropped => exact List.nil_sublist _

end Deals

variable [DecidableEq K]

/-- What a request does to the group of `k`, if anything. It finds the group `o` of this key and gets the given reply. -/
def Request.dealing? (k : K) (o : Option (Group K M)) (now : Instant) : (c : Request K M) → c.Reply → Option (Dealing M)
  | .add j m, .ok _ => if j = k then some (.added now m) else none
  | .remove j m, .ok _ =>
    if j = k then o.bind fun g => if (g.unmarked ++ g.marked).any (· == m) then some (.removed m) else none else none
  | .mark j m, .ok _ => if j = k then o.bind fun g => (g.unmarked.find? (· == m)).map .marked else none
  | _, _ => none

theorem Request.add_of_dealing? {k : K} {o : Option (Group K M)} {now now' : Instant} {c : Request K M} {r : c.Reply} {m : M}
    (added : c.dealing? k o now r = some (.added now' m)) : c = .add k m := by
  unfold Request.dealing? at added
  split at added
  · split at added
    · cases added
      rename_i own
      rw [own]
    · cases added
  · split at added
    · obtain ⟨g, -, added⟩ := Option.bind_eq_some_iff.1 added
      split at added <;> cases added
    · cases added
  · split at added
    · obtain ⟨g, -, added⟩ := Option.bind_eq_some_iff.1 added
      obtain ⟨x, -, added⟩ := Option.map_eq_some_iff.1 added
      cases added
    · cases added
  · cases added

namespace Shared

variable {k : K} {d : Shared K M} {env : Surroundings}

/-- What a request does to the store, it does to the group of every key. -/
theorem Effect.deals {c : Request K M} {r : c.Reply} {s : GroupStore K M} (effect : d.Effect env c r s) (k : K) :
    Deals k env.now (c.dealing? k (d.store.group k) env.now r) (d.store.group k) (s.group k) := by
  cases effect with
  | refused | notRemoved | notMarked | notDropped => exact .idle
  | looked other =>
    cases c with
    | clock | count | report | group => exact .idle
    | add | remove | mark | dropGroup => cases other _ _ rfl
  | @added j m s add =>
    rw [GroupStore.group_add add, Request.dealing?]
    by_cases own : j = k
    · subst own
      rw [if_pos rfl, if_pos rfl]
      exact .added
    · rw [if_neg own, if_neg own]
      exact .idle
  | @removed j m =>
    rw [GroupStore.remove, GroupStore.group_change, Request.dealing?]
    by_cases own : j = k
    · subst own
      rw [if_pos rfl, if_pos rfl]
      cases d.store.group j with
      | none => exact .idle
      | some g =>
        by_cases found : (g.unmarked ++ g.marked).any (· == m) = true
        · rw [Option.bind_some, if_pos found]
          exact .removed found
        · rw [Option.bind_some, if_neg found, Option.map_some, Group.remove_of_not_any found]
          exact .idle
    · rw [if_neg own, if_neg own]
      exact .idle
  | @marked j m =>
    rw [GroupStore.mark, GroupStore.group_change, Request.dealing?]
    by_cases own : j = k
    · subst own
      rw [if_pos rfl, if_pos rfl]
      cases d.store.group j with
      | none => exact .idle
      | some g =>
        cases first : g.unmarked.find? (· == m) with
        | some x =>
          rw [Option.bind_some, first]
          exact .marked first
        | none =>
          rw [Option.bind_some, first, Option.map_some, Group.mark_eq, first]
          exact .idle
    · rw [if_neg own, if_neg own]
      exact .idle
  | @dropped j =>
    rw [GroupStore.group_dropGroup]
    by_cases own : j = k
    · rw [if_pos own]
      exact .dropped
    · rw [if_neg own]
      exact .idle

/-- What a request does to the group of a key, answered by the shared data. -/
def dealing? (k : K) (d : Shared K M) (p : Posed K M) : Option (Dealing M) :=
  p.2.dealing? k (d.store.group k) p.1.now (d.perform p.1 p.2).1

/-- What requests do to the group of a key that are answered one after the other. -/
def dealings (k : K) (d : Shared K M) : List (Posed K M) → List (Dealing M)
  | [] => []
  | p :: rest => (d.dealing? k p).toList ++ dealings k (d.perform p.1 p.2).2 rest

theorem dealings_append (k : K) (d : Shared K M) (calls calls' : List (Posed K M)) :
    d.dealings k (calls ++ calls') = d.dealings k calls ++ (d.handle calls).dealings k calls' := by
  induction calls generalizing d with
  | nil => rfl
  | cons p rest ih =>
    rw [List.cons_append, dealings, dealings, ih, List.append_assoc]
    rfl

theorem add_of_dealing? {c : Request K M} {now : Instant} {m : M} (added : d.dealing? k (env, c) = some (.added now m)) :
    c = .add k m ∧ (d.perform env (.add k m)).1 = .ok () := by
  cases Request.add_of_dealing? added
  refine ⟨rfl, ?_⟩
  cases reply : (d.perform env (.add k m)).1 with
  | error f =>
    rw [dealing?, reply] at added
    cases added
  | ok r => rfl

theorem deals_perform (d : Shared K M) (p : Posed K M) (k : K) :
    Deals k p.1.now (d.dealing? k p) (d.store.group k) ((d.perform p.1 p.2).2.store.group k) :=
  (d.effect_perform p.1 p.2).deals k

theorem arrivals_dealings (k : K) (d : Shared K M) (calls : List (Posed K M)) :
    ((Dealing.arrivals (d.dealings k calls)).map Prod.fst).Sublist (calls.map (·.1.now)) := by
  induction calls generalizing d with
  | nil => exact List.nil_sublist _
  | cons p rest ih =>
    rw [dealings, Dealing.arrivals_append, List.map_append]
    exact (d.deals_perform p k).arrivals.append (ih _)

/-! ## the time of a group -/

/-- The group of `k` begins with the first of the requests `post`, which come after `pre`, and is there ever since. -/
def Life (d : Shared K M) (k : K) (pre post : List (Posed K M)) : Prop :=
  (d.handle pre).store.group k = none ∧ ∀ p, p <+: post → p ≠ [] → ((d.handle (pre ++ p)).store.group k).isSome

namespace Life

variable {pre post : List (Posed K M)} {p : Posed K M}

theorem begun (absent : (d.handle pre).store.group k = none)
    (present : ((d.handle (pre ++ [p])).store.group k).isSome) : d.Life k pre [p] := by
  refine ⟨absent, fun q le ne => ?_⟩
  rcases List.prefix_cons_iff.1 le with rfl | ⟨rest, rfl, none⟩
  · exact absurd rfl ne
  · rwa [List.prefix_nil.1 none]

theorem concat (life : d.Life k pre post) (present : ((d.handle (pre ++ (post ++ [p]))).store.group k).isSome) :
    d.Life k pre (post ++ [p]) := by
  refine ⟨life.1, fun q le ne => ?_⟩
  rcases List.prefix_concat_iff.1 le with rfl | le
  · exact present
  · exact life.2 q le ne

end Life

/-- A group is what requests have done to it since it began. -/
theorem since_began (fresh : d.store.group k = none) (calls : List (Posed K M)) {g : Group K M}
    (group : (d.handle calls).store.group k = some g) :
    ∃ pre post, calls = pre ++ post ∧ d.Life k pre post ∧ g.Since ((d.handle pre).dealings k post) := by
  induction calls using List.reverseRecOn generalizing g with
  | nil =>
    rw [show d.handle [] = d from rfl, fresh] at group
    cases group
  | append_singleton calls p ih =>
    have present : ((d.handle (calls ++ [p])).store.group k).isSome := Option.isSome_of_eq_some group
    have deals := (d.handle calls).deals_perform p k
    have left : ((d.handle calls).perform p.1 p.2).2 = d.handle (calls ++ [p]) := (d.handle_append calls [p]).symm
    rw [left, group] at deals
    cases before : (d.handle calls).store.group k with
    | none =>
      rw [before] at deals
      refine ⟨calls, [p], rfl, .begun before present, ?_⟩
      rw [dealings, dealings, List.append_nil]
      exact deals.begins
    | some g₀ =>
      obtain ⟨pre, post, rfl, life, since⟩ := ih before
      rw [before] at deals
      rw [List.append_assoc] at present
      refine ⟨pre, post ++ [p], List.append_assoc .., life.concat present, ?_⟩
      rw [dealings_append, ← handle_append, dealings, dealings, List.append_nil]
      exact deals.goesOn since

end Shared

theorem le_of_pairwise {l : List Instant} (ordered : l.Pairwise (· ≤ ·)) {first last : Instant} (head : l.head? = some first)
    (getLast : l.getLast? = some last) : first ≤ last := by
  obtain ⟨rest, rfl⟩ := List.head?_eq_some_iff.1 head
  rcases List.mem_cons.1 (List.mem_of_getLast? getLast) with rfl | mem
  · exact Nat.le_refl _
  · exact List.rel_of_pairwise_cons ordered mem

omit [DecidableEq K] in
/-- The times of a group are in order if the clock never goes back. -/
theorem Group.Since.le {g : Group K M} {dealings : List (Dealing M)} (since : g.Since dealings)
    (ordered : ((Dealing.arrivals dealings).map Prod.fst).Pairwise (· ≤ ·)) : g.createdAt ≤ g.updatedAt :=
  le_of_pairwise ordered (List.head?_map.trans since.created) (List.getLast?_map.trans since.updated)

/-- **What a group holds.** Any requests are answered one after the other by a store that begins empty, with any capacity;
they may name any keys and messages, and calls may fail before they take effect. A group that is there then began with one
of them, which added its first message, and is what was added, removed and marked under its key since (`Group.Since`): the
unmarked messages stand in the order in which they came, the marked ones in the order in which they were marked; together
they are what came, less one equal message for each removal that found one. The group was made when the first of these
messages came and updated when the last one did, in this order if the clock never goes back. A removal takes the first equal
unmarked message, or else the first equal marked one; marking moves the first equal unmarked one to the end. Only a message
that is added changes a time, and requests under other keys change nothing. -/
theorem group_since_began (capacity : Nat) (calls : List (Posed K M)) (k : K) :
    let start : Shared K M := { store := .empty capacity }
    let d := start.handle calls
    (∀ g, d.store.group k = some g →
      (∃ pre post, calls = pre ++ post ∧ start.Life k pre post ∧ g.Since ((start.handle pre).dealings k post)) ∧
      ((calls.map (·.1.now)).Pairwise (· ≤ ·) → g.createdAt ≤ g.updatedAt) ∧
      (∀ env m, env.fault .remove = none → (d.perform env (.remove k m)).2.store.group k = some
        (if g.unmarked.any (· == m) then { g with unmarked := g.unmarked.eraseP (· == m) }
          else { g with marked := g.marked.eraseP (· == m) })) ∧
      (∀ env m, env.fault .mark = none → (d.perform env (.mark k m)).2.store.group k = some
        ((g.unmarked.find? (· == m)).elim g fun x =>
          { g with unmarked := g.unmarked.eraseP (· == m), marked := g.marked ++ [x] })) ∧
      ∀ env c g', (d.perform env c).2.store.group k = some g' → g'.createdAt = g.createdAt ∧
        ((∀ m, c = .add k m → (d.perform env (.add k m)).1 ≠ .ok ()) → g'.updatedAt = g.updatedAt)) ∧
    ∀ env c, (∀ method, c.method? ≠ some (method, k)) →
      (d.perform env c).2.store.group k = d.store.group k := by
  intro start d
  refine ⟨fun g group => ⟨start.since_began rfl calls group, fun ordered => ?_, fun env m quiet => ?_, fun env m quiet => ?_,
    fun env c g' left => ?_⟩, fun env c other => Shared.group_perform_of_ne other⟩
  · obtain ⟨pre, post, rfl, -, since⟩ := start.since_began rfl calls group
    refine since.le (ordered.sublist (((start.handle pre).arrivals_dealings k post).trans ?_))
    rw [List.map_append]
    exact List.sublist_append_right ..
  · rw [Shared.perform, Shared.onStore_of_ok quiet rfl]
    show (d.store.remove k m).group k = _
    rw [GroupStore.remove, GroupStore.group_change, if_pos rfl, group, Option.map_some, Group.remove_eq]
  · rw [Shared.perform, Shared.onStore_of_ok quiet rfl]
    show (d.store.mark k m).group k = _
    rw [GroupStore.mark, GroupStore.group_change, if_pos rfl, group, Option.map_some, Group.mark_eq]
  · have deals := d.deals_perform (env, c) k
    rw [left, group] at deals
    obtain ⟨created, updated⟩ := deals.times
    refine ⟨created, fun silent => updated fun m added => ?_⟩
    obtain ⟨rfl, reply⟩ := Shared.add_of_dealing? added
    exact silent m rfl reply

/-- A group is dropped and begins again with three messages, two of them equal. The first of these is marked, so a removal
takes the other one, and a further one takes what is marked. -/
theorem group_since_began_of_equals :
    let start : Shared Nat Nat := { store := .empty 0 }
    let before : List (Posed Nat Nat) := [({ now := 1 }, .add 0 5), ({ now := 2 }, .dropGroup 0)]
    let since : List (Posed Nat Nat) := [({ now := 3 }, .add 0 5), ({ now := 4 }, .add 0 6), ({ now := 4 }, .add 0 5),
      ({ now := 5 }, .mark 0 5), ({ now := 6 }, .remove 0 5), ({ now := 7 }, .remove 0 7)]
    let d := start.handle (before ++ since)
    let g : Group Nat Nat := ⟨0, [6], [5], 3, 4⟩
    d.store.group 0 = some g ∧
      (start.handle before).dealings 0 since = [.added 3 5, .added 4 6, .added 4 5, .marked 5, .removed 5] ∧
      (∃ pre post, before ++ since = pre ++ post ∧ start.Life 0 pre post ∧
        g.Since ((start.handle pre).dealings 0 post)) ∧
      (d.perform {} (.remove 0 5)).2.store.group 0 = some { g with marked := [] } ∧ g.createdAt ≤ g.updatedAt := by
  intro start before since d g
  have group : d.store.group 0 = some g := by decide
  obtain ⟨began, ordered, removes, -⟩ := (group_since_began 0 (before ++ since) 0).1 g group
  exact ⟨group, by decide, began, removes {} 5 rfl, ordered (by decide)⟩

end CorrelationBarrier
