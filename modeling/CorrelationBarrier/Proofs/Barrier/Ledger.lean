import CorrelationBarrier.Barrier.Churn
import CorrelationBarrier.Proofs.Barrier.Course

/-!
# The ledger of a barrier

What has been added under a key is what has been taken out again, followed by what is still unmarked, in this order.

* `added`, `taken` — the messages that went in and came out under a key, as the chronicle shows them;
* `Course.ledger_at` — the two sides agree for an exclusive key, for a step keeps them so (`unmarked_step`);
  `Course.ledger` — on a validated table they agree for all keys;
* `takenBy` — what one thread has taken out; `Course.takenBy_eq` — it is what the thread is about to answer;
* `Act.Returns` — a program can do nothing but answer with a message;
* `Course.wellKept` — every message is stored under its own key.
-/

namespace CorrelationBarrier

variable {K M : Type}

/-! ## what goes in and what comes out -/

/-- The message that an occurrence adds to the store, with the key under which it does. -/
def Happening.added? (e : Occurrence K M) : Option (K × M) :=
  match e.deed with
  | .called (.add k m) (.ok ()) => some (k, m)
  | _ => none

/-- What a call that hands out `m` under the key `k` finds among the unmarked messages. -/
def GroupStore.finds? [DecidableEq K] [BEq M] (s : GroupStore K M) (k : K) (m : M) : Option (K × M) :=
  ((s.group k).bind fun g => Group.takeEqual m g.unmarked).map fun (x, _) => (k, x)

/-- The message that an occurrence takes out of the unmarked ones, with its key. -/
def Happening.taken? [DecidableEq K] [BEq M] (e : Occurrence K M) : Option (K × M) :=
  match e.deed with
  | .called (.mark k m) (.ok ()) => e.data.store.finds? k m
  | .called (.remove k m) (.ok ()) => e.data.store.finds? k m
  | _ => none

/-- The messages among keyed ones whose key is `k`. -/
def underKey [DecidableEq K] (k : K) (kms : List (K × M)) : List M := (kms.filter (·.1 = k)).map (·.2)

/-- The messages that were added under a key, in order. -/
def added [DecidableEq K] (k : K) (hist : List (Occurrence K M)) : List M := underKey k (hist.filterMap (·.added?))

/-- The messages that were taken out of the unmarked ones of a key, in order. -/
def taken [DecidableEq K] [BEq M] (k : K) (hist : List (Occurrence K M)) : List M :=
  underKey k (hist.filterMap (·.taken?))

/-- The messages that a thread has taken out. -/
def takenBy [DecidableEq K] [BEq M] (n : Nat) (hist : List (Occurrence K M)) : List M :=
  ((hist.filter (·.thread = n)).filterMap (·.taken?)).map (·.2)

/-- The unmarked messages of a key, none if it has no group. -/
def GroupStore.unmarked [DecidableEq K] (s : GroupStore K M) (k : K) : List M :=
  ((s.group k).map (·.unmarked)).getD []

section Unmarked

variable [DecidableEq K]

theorem underKey_append (k : K) (kms kms' : List (K × M)) :
    underKey k (kms ++ kms') = underKey k kms ++ underKey k kms' := by
  simp [underKey]

theorem underKey_one (k j : K) (m : M) : underKey k [(j, m)] = if j = k then [m] else [] := by
  by_cases h : j = k <;> simp [underKey, h]

theorem underKey_ne_nil {km : K × M} {kms : List (K × M)} (mem : km ∈ kms) : underKey km.1 kms ≠ [] :=
  List.ne_nil_of_mem (List.mem_map_of_mem (List.mem_filter.2 ⟨mem, decide_eq_true rfl⟩))

theorem added_append (k : K) (hist : List (Occurrence K M)) (e : Occurrence K M) :
    added k (hist ++ [e]) = added k hist ++ underKey k e.added?.toList := by
  rw [added, List.filterMap_append, underKey_append]
  cases h : e.added? <;> simp [added, h]

variable [BEq M]

theorem taken_append (k : K) (hist : List (Occurrence K M)) (e : Occurrence K M) :
    taken k (hist ++ [e]) = taken k hist ++ underKey k e.taken?.toList := by
  rw [taken, List.filterMap_append, underKey_append]
  cases h : e.taken? <;> simp [taken, h]

theorem takenBy_append (n : Nat) (hist : List (Occurrence K M)) (e : Occurrence K M) :
    takenBy n (hist ++ [e]) = takenBy n hist ++ if e.thread = n then (e.taken?.map (·.2)).toList else [] := by
  rw [takenBy, List.filter_append, List.filterMap_append, List.map_append]
  by_cases hn : e.thread = n
  · cases h : e.taken? <;> simp [takenBy, hn, h]
  · simp [takenBy, hn]

/-! ## the effect of a call on the unmarked messages -/

namespace GroupStore

omit [BEq M] in
theorem unmarked_of_group {s : GroupStore K M} {k : K} {g : Group K M} (h : s.group k = some g) :
    s.unmarked k = g.unmarked := by
  simp [unmarked, h]

omit [BEq M] in
theorem unmarked_add {s s' : GroupStore K M} {now : Instant} {j : K} {m : M} (h : s.add now j m = .ok s') (k : K) :
    s'.unmarked k = s.unmarked k ++ underKey k [(j, m)] := by
  rw [unmarked, group_add h, underKey_one]
  by_cases hk : j = k
  · subst hk
    rw [if_pos rfl, if_pos rfl, unmarked]
    cases s.group j <;> rfl
  · rw [if_neg hk, if_neg hk, List.append_nil, unmarked]

/-- The first unmarked message is the one that is found. -/
theorem finds?_head [ReflBEq M] {s : GroupStore K M} {k : K} {g : Group K M} {m : M} (hg : s.group k = some g)
    (hm : g.unmarked.head? = some m) : s.finds? k m = some (k, m) := by
  obtain ⟨rest, hrest⟩ := List.head?_eq_some_iff.1 hm
  rw [finds?, hg, Option.bind_some, hrest, Group.takeEqual_head]
  rfl

omit [BEq M] in
/-- A change that takes the first unmarked message out of a group takes it out of the unmarked ones of the key. -/
theorem unmarked_change {s : GroupStore K M} {j : K} {g : Group K M} {m : M} {rest : List M}
    {f : Group K M → Group K M} (hg : s.group j = some g) (hm : g.unmarked = m :: rest) (hf : (f g).unmarked = rest)
    (k : K) : s.unmarked k = underKey k [(j, m)] ++ (s.change j f).unmarked k := by
  rw [underKey_one]
  by_cases hk : j = k
  · subst hk
    have hg' : (s.change j f).group j = some (f g) := by
      rw [group_change, if_pos rfl, hg]
      rfl
    rw [if_pos rfl, unmarked_of_group hg, unmarked_of_group hg', hm, hf]
    rfl
  · rw [if_neg hk, unmarked, unmarked, group_change, if_neg hk]
    rfl

end GroupStore

/-- A call is entered in the ledger under its own key only. -/
theorem Happening.key_of_entry {n : Nat} {env : Surroundings} {data : Shared K M} {c : Request K M} {r : c.Reply}
    {km : K × M} (h : added? ⟨n, env, data, .called c r⟩ = some km ∨ taken? ⟨n, env, data, .called c r⟩ = some km) :
    ∃ method, c.method? = some (method, km.1) := by
  have found {j : K} {m : M} (h : data.store.finds? j m = some km) : km.1 = j := by
    obtain ⟨x, -, rfl⟩ := Option.map_eq_some_iff.1 h
    rfl
  cases c with
  | add j m =>
    rcases h with h | h
    · cases r with
      | error f => cases h
      | ok r =>
        cases h
        exact ⟨_, rfl⟩
    · cases h
  | mark j m | remove j m =>
    rcases h with h | h
    · cases h
    · cases r with
      | error f => cases h
      | ok r =>
        rw [found h]
        exact ⟨_, rfl⟩
  | _ => rcases h with h | h <;> cases h

omit [BEq M] in
theorem underKey_eq_nil {k : K} {o : Option (K × M)} (h : ∀ km, o = some km → km.1 ≠ k) : underKey k o.toList = [] := by
  cases o with
  | none => rfl
  | some km => exact (underKey_one k km.1 km.2).trans (if_neg (h km rfl))

/-- A call that is not on the group of a key changes neither side for that key. -/
theorem unmarked_step_of_ne {data : Shared K M} {c : Request K M} {k : K} (hc : ∀ method, c.method? ≠ some (method, k))
    (n : Nat) (env : Surroundings) :
    let e : Occurrence K M := ⟨n, env, data, .called c (data.perform env c).1⟩
    data.store.unmarked k ++ underKey k e.added?.toList =
      underKey k e.taken?.toList ++ (data.perform env c).2.store.unmarked k := by
  intro e
  have other {km : K × M} (h : e.added? = some km ∨ e.taken? = some km) : km.1 ≠ k := by
    rintro rfl
    obtain ⟨method, hm⟩ := Happening.key_of_entry h
    exact hc method hm
  rw [underKey_eq_nil fun _ h => other (.inl h), underKey_eq_nil fun _ h => other (.inr h), List.append_nil,
    List.nil_append, GroupStore.unmarked, GroupStore.unmarked, Shared.group_perform_of_ne hc]

section Step

variable [ReflBEq M] {rules : Rules K M} {policy : TokenPolicy} {op : Operation K M} {φ : Progress K M}
  {data : Shared K M}

/-- What was unmarked and what a call adds are what the call takes out and what is then unmarked. -/
theorem unmarked_step {c : Request K M} (hc : φ.AllowsCall rules op c) (knows : φ.Knows rules policy data.store)
    (n : Nat) (env : Surroundings) (k : K) :
    let e : Occurrence K M := ⟨n, env, data, .called c (data.perform env c).1⟩
    data.store.unmarked k ++ underKey k e.added?.toList =
      underKey k e.taken?.toList ++ (data.perform env c).2.store.unmarked k := by
  intro e
  have idle (hs : (data.perform env c).2.store = data.store) (ha : e.added? = none) (ht : e.taken? = none) :
      data.store.unmarked k ++ underKey k e.added?.toList =
        underKey k e.taken?.toList ++ (data.perform env c).2.store.unmarked k := by
    rw [hs, ha, ht]
    simp [underKey]
  cases hc with
  | clock | count | report | announce => exact idle rfl rfl rfl
  | group | lookUp => exact idle Shared.store_perform_group rfl rfl
  | @add h m =>
    cases hr : (data.perform env (.add h.key m)).1 with
    | error f => exact idle (Shared.onStore_error hr) (by simp [e, Happening.added?, hr]) rfl
    | ok r =>
      have ha : e.added? = some (h.key, m) := by simp [e, Happening.added?, hr]
      rw [ha, GroupStore.unmarked_add (Shared.perform_add_ok hr)]
      rfl
  | @mark h g now m _ first =>
    cases hr : (data.perform env (.mark h.key m)).1 with
    | error f => exact idle (Shared.onStore_error hr) rfl (by simp [e, Happening.taken?, hr])
    | ok r =>
      obtain ⟨rest, hrest⟩ := List.head?_eq_some_iff.1 first
      have ht : e.taken? = some (h.key, m) := by
        simp only [e, Happening.taken?, hr]
        exact GroupStore.finds?_head knows.1 first
      have hmark : (g.mark m).unmarked = rest := by
        rw [Group.mark, hrest, Group.takeEqual_head]
      rw [ht, Shared.perform_mark_ok hr]
      exact (List.append_nil _).trans (GroupStore.unmarked_change knows.1 hrest hmark k)
  | @remove h g now m _ first =>
    cases hr : (data.perform env (.remove h.key m)).1 with
    | error f => exact idle (Shared.onStore_error hr) rfl (by simp [e, Happening.taken?, hr])
    | ok r =>
      obtain ⟨rest, hrest⟩ := List.head?_eq_some_iff.1 first
      have ht : e.taken? = some (h.key, m) := by
        simp only [e, Happening.taken?, hr]
        exact GroupStore.finds?_head knows.1 first
      have hremove : (g.remove m).unmarked = rest := by
        rw [Group.remove, hrest, Group.takeEqual_head]
      rw [ht, Shared.perform_remove_ok hr]
      exact (List.append_nil _).trans (GroupStore.unmarked_change knows.1 hrest hremove k)
  | @dropGroup h g now drained =>
    cases hr : (data.perform env (.dropGroup h.key)).1 with
    | error f => exact idle (Shared.onStore_error hr) rfl rfl
    | ok r =>
      -- only a group without unmarked messages is dropped
      show data.store.unmarked k ++ [] = [] ++ (data.perform env (.dropGroup h.key)).2.store.unmarked k
      rw [Shared.perform_dropGroup_ok hr, List.append_nil, List.nil_append, GroupStore.unmarked,
        GroupStore.unmarked, GroupStore.group_dropGroup]
      by_cases hk : h.key = k
      · subst hk
        rw [if_pos rfl, knows.1]
        exact drained
      · rw [if_neg hk]

end Step

namespace Barrier.Course

variable [ReflBEq M] {b : Barrier K M} {ops : List (Operation K M)} {hist : List (Occurrence K M)} {m : Threads K M}

/-- What was added under an exclusive key is what was taken out and what is unmarked. -/
theorem ledger_at (course : b.Course ops hist m) (bare : ∀ k, b.shared.store.group k = none) {k : K}
    (alone : b.Exclusive k hist) : added k hist = taken k hist ++ m.data.store.unmarked k := by
  induction course with
  | here =>
    show [] = [] ++ b.shared.store.unmarked k
    rw [GroupStore.unmarked, bare]
    rfl
  | start _ _ ih => exact ih alone
  | @step ops hist m i env t d table data t' before thread op _ allowed step ih =>
    rw [added_append, taken_append, ih alone.before]
    rcases step.call_or_not with ⟨c, rfl, rfl⟩ | ⟨hd, rfl⟩
    · rw [List.append_assoc, List.append_assoc]
      refine congrArg _ ?_
      by_cases hm : ∃ method, Request.method? c = some (method, k)
      · -- the call is made in a section of the key
        obtain ⟨method, hm⟩ := hm
        have hc := Progress.allows_called.1 allowed
        obtain ⟨h, hs, hk⟩ := hc.stay hm
        exact unmarked_step hc (before.knows_at alone.before i ⟨_, hs, hk⟩) i env k
      · exact unmarked_step_of_ne (fun method h => hm ⟨method, h⟩) i env
    · cases d with
      | called c r => exact absurd rfl (hd c r)
      | _ => exact (List.append_nil _).trans (congrArg (· ++ _) (List.append_nil _).symm)

/-- What was added under a key is what was taken out and what is unmarked. -/
theorem ledger (course : b.Course ops hist m) (fresh : b.table = .new .validated)
    (bare : ∀ k, b.shared.store.group k = none) (k : K) : added k hist = taken k hist ++ m.data.store.unmarked k :=
  course.ledger_at bare (course.exclusive fresh k)

end Barrier.Course

end Unmarked

/-! ## what is taken out is answered -/

section Answered

/-- The message that a section has handed out. -/
def Upshot.message? : Upshot K M → Option M
  | .visit (.ok (.released m)) => some m
  | _ => none

/-- Whatever the replies, a program makes no call on the store, enters no section, and answers with the message `x`. -/
def Act.Returns (x : M) : Act K M (Answer K M) → Prop
  | .done a => a = .pulled (.ok (some x))
  | .leave next => Act.Returns x next
  | .forget _ next => ∀ b, Act.Returns x (next b)
  | .call c next => Request.method? c = none ∧ ∀ r, Act.Returns x (next r)
  | _ => False

namespace Progress

/-- The message that an operation has taken out and is to answer. -/
def message? : Progress K M → Option M
  | .telling _ _ u _ | .vacant _ u | .forgetting _ u | .settled _ u _ | .left u => u.message?
  | .finished (.pulled (.ok o)) => o
  | _ => none

variable {rules : Rules K M} {policy : TokenPolicy} {op : Operation K M} {φ : Progress K M}

theorem message?_afterReport (h : Held K) (u : Upshot K M) (fate : Fate) :
    (afterReport policy h u fate).message? = u.message? := by
  cases fate <;> cases policy <;> rfl

theorem message?_afterForget (h : Held K) (u : Upshot K M) : (afterForget h u).message? = u.message? := by
  unfold afterForget
  split <;> rfl

theorem message?_afterClose (u : Upshot K M) : (afterClose u).message? = u.message? := by
  unfold afterClose
  split <;> rfl

theorem message?_afterCount (u : Upshot K M) : (afterCount u).message? = u.message? := by
  rcases u with (f | ⟨⟩) | (f | (m | _ | _ | _)) <;> rfl

/-- A call that is not on the store neither takes a message out nor loses one. -/
theorem message?_afterCall {c : Request K M} (hc : φ.AllowsCall rules op c) (hm : c.method? = none) (r : c.Reply) :
    (φ.afterCall rules policy c r).message? = φ.message? := by
  cases hc with
  | @clock h g =>
    show (afterClock rules h g r).message? = none
    unfold afterClock
    split <;> rfl
  | report => exact message?_afterReport _ _ _
  | count => exact message?_afterCount _
  | announce => rfl
  | _ => cases hm

theorem message?_after {d : Deed K (Request.interface K M)} (hd : ∀ c r, d ≠ .called c r)
    (allowed : φ.Allows rules op d) : (φ.after rules policy d).message? = φ.message? := by
  cases allowed with
  | called => exact absurd rfl (hd _ _)
  | closed => exact message?_afterClose _
  | forgot => exact message?_afterForget _ _
  | opened | looked | sought | declined | gaveBack | retired => rfl

/-- An operation that is to answer a message makes no further call on the store. -/
theorem method?_of_message? {c : Request K M} {x : M} (hc : φ.AllowsCall rules op c) (hx : φ.message? = some x) :
    c.method? = none := by
  cases hc with
  | report | count | announce => rfl
  | _ => cases hx

/-- The answer of an operation is the message that it has taken out. -/
theorem message?_of_ends {a : Answer K M} (ends : φ.Ends rules op a) : φ.message? = Barrier.handedOut (some a) := by
  cases φ with
  | idle =>
    cases a with
    | accepted o => rfl
    | pulled o =>
      obtain ⟨-, rfl⟩ := ends
      rfl
  | left u =>
    rcases u with (f | ⟨⟩) | (f | v)
    · cases ends
      rfl
    · cases ends
    · cases ends
      rfl
    · cases ends
  | finished a' =>
    cases ends
    rcases a with o | (f | o) <;> rfl
  | _ => exact ends.elim

end Progress

/-- An operation that has taken a message out can do nothing but answer with it. -/
theorem Act.Conforms.returns {rules : Rules K M} {policy : TokenPolicy} {op : Operation K M} {φ : Progress K M}
    {p : Act K M (Answer K M)} (hp : Conforms rules policy op (fun φ a => φ.Ends rules op a) p φ) {x : M}
    (hx : φ.message? = some x) : p.Returns x := by
  induction p generalizing φ with
  | done a =>
    have ends := Progress.message?_of_ends hp
    rw [hx] at ends
    rcases a with o | (f | o)
    · cases ends
    · cases ends
    · cases ends
      rfl
  | acquire k next ih => cases (hp 0).1
  | look next ih =>
    cases (hp (.new policy)).1
    cases hx
  | enter k next ih =>
    cases (hp 0).1
    cases hx
  | leave next ih => exact ih hp.2 ((Progress.message?_after (d := .closed) nofun hp.1).trans hx)
  | forget depth next ih =>
    refine fun b => ih b (hp.2 b).2 ?_
    rw [Progress.message?_after (d := .forgot depth b) nofun (hp.2 b).1,
      Progress.message?_after (d := .retired depth) nofun hp.1, hx]
  | isCurrent depth next ih => cases (hp true).1
  | call c next ih =>
    have hm := Progress.method?_of_message? hp.1 hx
    exact ⟨hm, fun r => ih r (hp.2 r) ((Progress.message?_afterCall hp.1 hm r).trans hx)⟩

variable {rules : Rules K M} {policy : TokenPolicy} {op : Operation K M} {φ : Progress K M}

theorem Progress.KeptBy.returns {t : Thread K (Request.interface K M) (Answer K M)}
    (kept : φ.KeptBy rules policy op t) {x : M} (hx : φ.message? = some x) : Act.Returns x t.program := by
  obtain ⟨p, stage, hs⟩ := t
  cases stage with
  | retiring =>
    obtain ⟨depth, next, rfl, kept⟩ := kept
    exact fun b => (kept b).2.returns ((Progress.message?_after (d := .forgot depth b) nofun (kept b).1).trans hx)
  | _ => exact Act.Conforms.returns kept hx

variable [DecidableEq K] [BEq M]

/-- The message that an operation is to answer is the one that it takes out. -/
theorem Progress.taken_afterCall [ReflBEq M] {data : Shared K M} {c : Request K M} (hc : φ.AllowsCall rules op c)
    (knows : φ.Knows rules policy data.store) (n : Nat) (env : Surroundings) :
    let e : Occurrence K M := ⟨n, env, data, .called c (data.perform env c).1⟩
    (φ.afterCall rules policy c (data.perform env c).1).message?.toList =
      φ.message?.toList ++ (e.taken?.map (·.2)).toList := by
  intro e
  have other (hm : c.method? = none) : (φ.afterCall rules policy c (data.perform env c).1).message?.toList =
      φ.message?.toList ++ (e.taken?.map (·.2)).toList := by
    have ht : e.taken? = none := by
      cases c with
      | clock | count | report => rfl
      | _ => cases hm
    rw [Progress.message?_afterCall hc hm, ht]
    exact (List.append_nil _).symm
  cases hc with
  | clock | count | report | announce => exact other rfl
  | @add h m =>
    show (afterAdd policy h _).message?.toList = []
    rcases (data.perform env (.add h.key m)).1 with (e | text) | ⟨⟩
    · cases policy <;> rfl
    · rfl
    · rfl
  | @group h =>
    show (afterGroup h _).message?.toList = []
    rcases (data.perform env (.group h.key)).1 with f | (_ | g) <;> rfl
  | @lookUp h err =>
    show (afterLookup h err _).message?.toList = []
    rcases (data.perform env (.group h.key)).1 with (f | text) | (_ | g) <;> rfl
  | @mark h g now m _ first =>
    show (afterHandOut h m _).message?.toList = [] ++ _
    cases hr : (data.perform env (.mark h.key m)).1 with
    | error f => simp [e, Happening.taken?, hr, afterHandOut, message?, Upshot.message?]
    | ok r =>
      simp only [e, Happening.taken?, hr, GroupStore.finds?_head knows.1 first]
      rfl
  | @remove h g now m _ first =>
    show (afterHandOut h m _).message?.toList = [] ++ _
    cases hr : (data.perform env (.remove h.key m)).1 with
    | error f => simp [e, Happening.taken?, hr, afterHandOut, message?, Upshot.message?]
    | ok r =>
      simp only [e, Happening.taken?, hr, GroupStore.finds?_head knows.1 first]
      rfl
  | @dropGroup h =>
    show (afterDrop h _).message?.toList = []
    cases (data.perform env (.dropGroup h.key)).1 <;> rfl

namespace Barrier.Course

variable [ReflBEq M] {b : Barrier K M} {ops : List (Operation K M)} {hist : List (Occurrence K M)} {m : Threads K M}

/-- What a thread has taken out is what it is to answer. -/
theorem takenBy_eq (course : b.Course ops hist m) (fresh : b.table = .new .validated) (n : Nat) :
    takenBy n hist = (b.progress n hist).message?.toList := by
  induction course with
  | here => rfl
  | start _ _ ih => exact ih
  | @step ops hist m i env t d table data t' before thread op _ allowed step ih =>
    rw [takenBy_append, progress_append]
    by_cases hi : i = n
    · subst hi
      rw [if_pos rfl, if_pos rfl, ih]
      rcases step.call_or_not with ⟨c, rfl, -⟩ | ⟨hd, -⟩
      · rw [Progress.after_called]
        exact (Progress.taken_afterCall (Progress.allows_called.1 allowed) (before.knows fresh i) i env).symm
      · rw [Progress.message?_after hd allowed]
        cases d with
        | called c r => exact absurd rfl (hd c r)
        | _ => exact List.append_nil _
    · rw [if_neg hi, if_neg hi, List.append_nil]
      exact ih

end Barrier.Course

end Answered

/-! ## messages under their own keys -/

namespace Group

variable [BEq M]

theorem perm_takeEqual {m x : M} {l r : List M} (h : takeEqual m l = some (x, r)) : l.Perm (x :: r) := by
  induction l generalizing r with
  | nil => cases h
  | cons y l ih =>
    rw [takeEqual] at h
    split at h
    · cases h
      exact .refl _
    · obtain ⟨⟨z, rest⟩, hz, he⟩ := Option.map_eq_some_iff.1 h
      cases he
      exact ((ih hz).cons y).trans (.swap ..)

theorem mem_mark {g : Group K M} {m x : M} (h : x ∈ (g.mark m).unmarked ++ (g.mark m).marked) :
    x ∈ g.unmarked ++ g.marked := by
  unfold mark at h
  split at h
  · rename_i y rest hy
    have perm := perm_takeEqual hy
    rcases List.mem_append.1 h with h | h
    · exact List.mem_append_left _ (perm.mem_iff.2 (List.mem_cons_of_mem _ h))
    · rcases List.mem_append.1 h with h | h
      · exact List.mem_append_right _ h
      · cases List.mem_singleton.1 h
        exact List.mem_append_left _ (perm.mem_iff.2 (List.mem_cons_self ..))
  · exact h

theorem mem_remove {g : Group K M} {m x : M} (h : x ∈ (g.remove m).unmarked ++ (g.remove m).marked) :
    x ∈ g.unmarked ++ g.marked := by
  unfold remove at h
  split at h
  · rename_i y rest hy
    rcases List.mem_append.1 h with h | h
    · exact List.mem_append_left _ ((perm_takeEqual hy).mem_iff.2 (List.mem_cons_of_mem _ h))
    · exact List.mem_append_right _ h
  · split at h
    · rename_i y rest hy
      rcases List.mem_append.1 h with h | h
      · exact List.mem_append_left _ h
      · exact List.mem_append_right _ ((perm_takeEqual hy).mem_iff.2 (List.mem_cons_of_mem _ h))
    · exact h

theorem key_mark (g : Group K M) (m : M) : (g.mark m).key = g.key := by
  unfold mark
  split <;> rfl

theorem key_remove (g : Group K M) (m : M) : (g.remove m).key = g.key := by
  unfold remove
  split
  · rfl
  · split <;> rfl

end Group

variable [DecidableEq K]

/-- Every group stands under its key, and so does every message in it, marked or not. -/
def GroupStore.WellKept (correlate : Correlation K M) (s : GroupStore K M) : Prop :=
  ∀ k g, s.group k = some g → g.key = k ∧ ∀ x ∈ g.unmarked ++ g.marked, correlate x = .ok k

namespace GroupStore.WellKept

variable {correlate : Correlation K M} {s : GroupStore K M}

theorem add {s' : GroupStore K M} (kept : s.WellKept correlate) {now : Instant} {k : K} {m : M}
    (hm : correlate m = .ok k) (h : s.add now k m = .ok s') : s'.WellKept correlate := by
  intro j g hg
  rw [group_add h] at hg
  by_cases hk : k = j
  · subst hk
    rw [if_pos rfl] at hg
    cases hg
    cases hold : s.group k with
    | none =>
      refine ⟨rfl, fun x hx => ?_⟩
      cases List.mem_singleton.1 hx
      exact hm
    | some g =>
      obtain ⟨key, messages⟩ := kept k g hold
      refine ⟨key, fun x hx => ?_⟩
      rcases List.mem_append.1 hx with hx | hx
      · rcases List.mem_append.1 hx with hx | hx
        · exact messages x (List.mem_append_left _ hx)
        · cases List.mem_singleton.1 hx
          exact hm
      · exact messages x (List.mem_append_right _ hx)
  · rw [if_neg hk] at hg
    exact kept j g hg

theorem change (kept : s.WellKept correlate) {k : K} {f : Group K M → Group K M} (hkey : ∀ g, (f g).key = g.key)
    (hmem : ∀ g, ∀ x ∈ (f g).unmarked ++ (f g).marked, x ∈ g.unmarked ++ g.marked) :
    (s.change k f).WellKept correlate := by
  intro j g hg
  rw [group_change] at hg
  by_cases hk : k = j
  · subst hk
    rw [if_pos rfl] at hg
    obtain ⟨g₀, hg₀, rfl⟩ := Option.map_eq_some_iff.1 hg
    obtain ⟨key, messages⟩ := kept k g₀ hg₀
    exact ⟨(hkey g₀).trans key, fun x hx => messages x (hmem g₀ x hx)⟩
  · rw [if_neg hk] at hg
    exact kept j g hg

theorem dropGroup (kept : s.WellKept correlate) (k : K) : (s.dropGroup k).WellKept correlate := by
  intro j g hg
  rw [group_dropGroup] at hg
  by_cases hk : k = j
  · rw [if_pos hk] at hg
    cases hg
  · rw [if_neg hk] at hg
    exact kept j g hg

variable [BEq M]

/-- A call keeps every message under its key, if an added message is. -/
theorem perform {data : Shared K M} (kept : data.store.WellKept correlate) (env : Surroundings) {c : Request K M}
    (hc : ∀ k m, c = .add k m → correlate m = .ok k) : (data.perform env c).2.store.WellKept correlate := by
  have failed (h : (data.perform env c).2.store = data.store) : (data.perform env c).2.store.WellKept correlate :=
    h ▸ kept
  cases c with
  | clock | count | report => exact kept
  | group k => exact failed Shared.store_perform_group
  | add k m =>
    cases hr : (data.perform env (.add k m)).1 with
    | error f => exact failed (Shared.onStore_error hr)
    | ok r => exact kept.add (hc k m rfl) (Shared.perform_add_ok hr)
  | mark k m =>
    cases hr : (data.perform env (.mark k m)).1 with
    | error f => exact failed (Shared.onStore_error hr)
    | ok r =>
      rw [Shared.perform_mark_ok hr]
      exact kept.change (fun g => g.key_mark m) fun g x hx => Group.mem_mark hx
  | remove k m =>
    cases hr : (data.perform env (.remove k m)).1 with
    | error f => exact failed (Shared.onStore_error hr)
    | ok r =>
      rw [Shared.perform_remove_ok hr]
      exact kept.change (fun g => g.key_remove m) fun g x hx => Group.mem_remove hx
  | dropGroup k =>
    cases hr : (data.perform env (.dropGroup k)).1 with
    | error f => exact failed (Shared.onStore_error hr)
    | ok r =>
      rw [Shared.perform_dropGroup_ok hr]
      exact kept.dropGroup k

end GroupStore.WellKept

variable [BEq M]

/-- Every message is stored under its own key. -/
theorem Barrier.Course.wellKept {b : Barrier K M} {ops : List (Operation K M)} {hist : List (Occurrence K M)}
    {m : Threads K M} (course : b.Course ops hist m) (bare : ∀ k, b.shared.store.group k = none) :
    m.data.store.WellKept b.rules.correlate := by
  induction course with
  | here =>
    intro k g hg
    have hg : b.shared.store.group k = some g := hg
    rw [bare] at hg
    cases hg
  | start _ _ ih => exact ih
  | @step ops hist m i env t d table data t' before thread op hop allowed step ih =>
    rcases step.call_or_not with ⟨c, rfl, rfl⟩ | ⟨-, rfl⟩
    · refine ih.perform env fun k m hc => ?_
      subst hc
      -- a message is added by an accepting thread in the section of its key
      have concerns := fun s hs => before.concerns hop (n := i) (s := s) hs
      generalize b.progress i hist = φ at allowed concerns
      cases allowed with
      | called hc =>
        cases hc with
        | @add h m accepts => exact concerns { held := h } rfl m accepts
    · exact ih

/-- **Exactly once, first in, first out.** In every state of every run of a validated barrier on a store of any
capacity, for messages that are equal to themselves: what was added under a key is, in order, what was taken out of its
unmarked messages followed by what is still unmarked. A thread takes out at most one message, can then do nothing but
answer with it, and answers with no other. Every message is stored under its own key. -/
theorem Barrier.exactly_once [ReflBEq M] (rules : Rules K M) (capacity : Nat) (turns : List (Turn K M)) :
    let b := Barrier.new rules .validated capacity
    let m := b.play turns
    let hist := b.chronicle turns
    (∀ k, added k hist = taken k hist ++ m.data.store.unmarked k) ∧
    (∀ n t, m.threads[n]? = some t →
      (∀ x ∈ takenBy n hist, takenBy n hist = [x] ∧ Act.Returns x t.program) ∧
      ∀ a, t.answer? = some a → takenBy n hist = (handedOut (some a)).toList) ∧
    m.data.store.WellKept rules.correlate := by
  intro b m hist
  have course : b.Course (operations turns) hist m := b.course_play turns
  refine ⟨course.ledger rfl fun _ => rfl, fun n t ht => ?_, course.wellKept fun _ => rfl⟩
  obtain ⟨op, hop⟩ := course.operation_of_thread ht
  rw [course.takenBy_eq rfl]
  refine ⟨fun x hx => ?_, fun a ha => congrArg _ (Progress.message?_of_ends (course.ends ht hop ha).2)⟩
  have hx := Option.mem_toList.1 hx
  exact ⟨congrArg Option.toList hx, (course.kept ht hop).returns hx⟩

/-- Two messages of one key go in while a pull is on its way, which takes out the first. -/
theorem Barrier.exactly_once_of_three_threads :
    let b : Barrier Nat Nat := Barrier.new ⟨fun m => .ok (m % 2), .always, .mark⟩ .validated 0
    let turns := [.start (.accept 7), .start (.accept 9), .start (.pull .asListed)] ++
      (List.range 60).map fun i => .advance (i % 3) {}
    added 1 (b.chronicle turns) = [7, 9] ∧ taken 1 (b.chronicle turns) = [7] ∧
      added 1 (b.chronicle turns) = taken 1 (b.chronicle turns) ++ (b.play turns).data.store.unmarked 1 :=
  ⟨rfl, rfl, (Barrier.exactly_once _ 0 _).1 1⟩

end CorrelationBarrier
