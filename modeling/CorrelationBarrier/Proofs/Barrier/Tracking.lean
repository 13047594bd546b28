import CorrelationBarrier.Proofs.Barrier.Course

/-!
# Which keys a barrier keeps track of

On a validated table every key with a group has an entry, so that every stored message is found by a pull. When no
operation is in progress and no call on the store has broken, there are no other entries.

* `Deed.Breaks` — a call on the store fails for another reason than a full store;
* `Course.tracked` — no group without an entry, in every state;
* `Course.in_use` — an entry without a group is in use by a thread, unless a call has broken; `Course.use_after` and
  `Course.use_of_dropped` say what a step does to this.
-/

namespace CorrelationBarrier

variable {K M : Type}

/-! ## broken calls -/

/-- The failure that a reply reports. -/
def Request.failure? : (c : Request K M) → c.Reply → Option (Failure StoreError)
  | .add _ _, .error f => some f
  | .group _, .error f => some f
  | .remove _ _, .error f => some f
  | .mark _ _, .error f => some f
  | .dropGroup _, .error f => some f
  | _, _ => none

/-- Whether a deed is a call on the store that fails for another reason than a full store. -/
def Deed.Breaks : Deed K (Request.interface K M) → Prop
  | .called c r => ∃ f, Request.failure? c r = some f ∧ ∀ n, f ≠ .error (.capacityExceeded n)
  | _ => False

namespace Progress

/-- Whether it is not known if the key of the section has a group. -/
def Unsure : Progress K M → Prop
  | .telling _ _ _ .unknown | .settled _ _ .unknown => True
  | _ => False

variable [DecidableEq K] [BEq M] {rules : Rules K M} {op : Operation K M} {env : Surroundings} {data : Shared K M}

theorem breaks_of_group_error {k : K} {f : Failure StoreError} (h : (data.perform env (.group k)).1 = .error f) :
    (Deed.called (I := Request.interface K M) (.group k) (data.perform env (.group k)).1).Breaks := by
  refine ⟨f, by rw [h]; rfl, fun n hf => ?_⟩
  subst hf
  have hr : (data.onStore env .group k fun store => .ok (store.group k, store)).1 =
    .error (.error (.capacityExceeded n)) := h
  unfold Shared.onStore at hr
  rcases hfault : env.fault .group with _ | (reason | text) <;> simp [hfault, Fault.failure] at hr

/-- A section becomes unsure of its key only when a call breaks. -/
theorem breaks_of_unsure {φ : Progress K M} {c : Request K M} (hc : φ.AllowsCall rules op c)
    (h : (φ.afterCall rules .validated c (data.perform env c).1).Unsure) :
    φ.Unsure ∨ (Deed.called (I := Request.interface K M) c (data.perform env c).1).Breaks := by
  cases hc with
  | @add e m =>
    right
    have h : (afterAdd .validated e (data.perform env (.add e.key m)).1 : Progress K M).Unsure := h
    rcases hr : (data.perform env (.add e.key m)).1 with (err | text) | ⟨⟩
    · rw [hr] at h
      exact h.elim
    · exact ⟨.panic text, rfl, nofun⟩
    · rw [hr] at h
      exact h.elim
  | @group e =>
    right
    have h : (afterGroup e (data.perform env (.group e.key)).1).Unsure := h
    rcases hr : (data.perform env (.group e.key)).1 with f | (_ | g)
    · rw [← hr]
      exact breaks_of_group_error hr
    · rw [hr] at h
      exact h.elim
    · rw [hr] at h
      exact h.elim
  | @lookUp e err =>
    right
    have h : (afterLookup e err (data.perform env (.group e.key)).1).Unsure := h
    rcases hr : (data.perform env (.group e.key)).1 with f | (_ | g)
    · rw [← hr]
      exact breaks_of_group_error hr
    · rw [hr] at h
      exact h.elim
    · rw [hr] at h
      exact h.elim
  | @clock e g =>
    have h : (afterClock rules e g env.now).Unsure := h
    unfold afterClock at h
    split at h <;> exact h.elim
  | @mark e g now m =>
    have h : (afterHandOut e m (data.perform env (.mark e.key m)).1 : Progress K M).Unsure := h
    unfold afterHandOut at h
    split at h <;> exact h.elim
  | @remove e g now m =>
    have h : (afterHandOut e m (data.perform env (.remove e.key m)).1 : Progress K M).Unsure := h
    unfold afterHandOut at h
    split at h <;> exact h.elim
  | @dropGroup e g now =>
    have h : (afterDrop e (data.perform env (.dropGroup e.key)).1 : Progress K M).Unsure := h
    unfold afterDrop at h
    split at h <;> exact h.elim
  | @report e event u fate =>
    left
    have h : (afterReport .validated e u fate).Unsure := h
    cases fate with
    | unknown => exact trivial
    | _ => exact h.elim
  | @count u =>
    have h : (afterCount u).Unsure := h
    unfold afterCount at h
    split at h <;> exact h.elim
  | announce => exact h.elim

omit [DecidableEq K] [BEq M] in
theorem not_unsure_after {policy : TokenPolicy} {φ : Progress K M} {d : Deed K (Request.interface K M)}
    (hd : ∀ c r, d ≠ .called c r) (allowed : φ.Allows rules op d) : ¬ (φ.after rules policy d).Unsure := by
  cases allowed with
  | called => exact absurd rfl (hd _ _)
  | @closed h u fate =>
    show ¬ (afterClose u).Unsure
    unfold afterClose
    split <;> exact not_false
  | @forgot h u =>
    show ¬ (afterForget h u).Unsure
    unfold afterForget
    split <;> exact not_false
  | opened | retired | looked | sought | declined | gaveBack => exact not_false

end Progress

/-! ## entries that come and go -/

namespace Thread

/-- Whether a thread waits for the token of a section, or has the section open. -/
def Uses {I : Interface} {α : Type} (h : Held K) (t : Thread K I α) : Prop :=
  t.stage = .fetched h.token ∨ h ∈ t.sections

variable [DecidableEq K] {I : Interface} {σ ε α : Type} {service : Service I ε σ} {env : ε} {table table' : LockTable K}
  {data data' : σ} {t t' : Thread K I α} {d : Deed K I}

/-- Only forgetting removes an entry. -/
theorem Step.current_isSome (step : t.Step service env table data d table' data' t') {k : K}
    (h : (table.current k).isSome) (hd : ∀ depth b, d ≠ .forgot depth b) : (table'.current k).isSome := by
  obtain ⟨i, hi⟩ := Option.isSome_iff_exists.1 h
  cases step with
  | fetched | sought => exact Option.isSome_of_eq_some (LockTable.current_acquire_of_some hi)
  | forgot | forgotNothing => exact absurd rfl (hd _ _)
  | _ => exact h

/-- An entry that is new is one that the thread has just fetched. -/
theorem Step.current_new (step : t.Step service env table data d table' data' t') {k : K} {i : TokenId}
    (h : table'.current k = some i) :
    table.current k = some i ∨ t'.stage = .fetched i ∨ ∃ k' i', d = .fetched k' i' := by
  cases step with
  | fetched => exact .inr (.inr ⟨_, _, rfl⟩)
  | @sought k' next hs =>
    rcases LockTable.current_acquire_cases h with h' | ⟨rfl, -, -⟩
    · exact .inl h'
    · rw [LockTable.current_acquire] at h
      exact .inr (.inl (congrArg Stage.fetched (Option.some.inj h)))
  | forgot => exact .inl (LockTable.current_of_unlink h)
  | _ => exact .inl h

end Thread

/-! ## groups and entries -/

namespace Barrier.Course

variable [DecidableEq K] [BEq M] {b : Barrier K M} {ops : List (Operation K M)} {hist : List (Occurrence K M)}
  {m : Threads K M}

theorem not_unsure (course : b.Course ops hist m) (fresh : b.table = .new .validated)
    (whole : ∀ e ∈ hist, ¬ e.deed.Breaks) (n : Nat) : ¬ (b.progress n hist).Unsure := by
  induction course with
  | here => exact not_false
  | start _ _ ih => exact ih whole
  | @step ops hist m i env t d table data t' before thread op _ allowed step ih =>
    have ih := ih fun e he => whole e (List.mem_append_left _ he)
    have hlast : ¬ d.Breaks := whole ⟨i, env, m.data, d⟩ List.mem_concat_self
    rw [progress_append]
    by_cases hi : i = n
    · subst hi
      rw [if_pos rfl]
      rcases step.call_or_not with ⟨c, rfl, -⟩ | ⟨hd, -⟩
      · rw [Progress.after_called, show b.table.policy = .validated by rw [fresh]; rfl]
        intro h
        exact (Progress.breaks_of_unsure (Progress.allows_called.1 allowed) h).elim ih hlast
      · exact Progress.not_unsure_after hd allowed
    · rw [if_neg hi]
      exact ih

/-- Every key with a group has an entry. -/
theorem tracked (course : b.Course ops hist m) (fresh : b.table = .new .validated)
    (bare : ∀ k, b.shared.store.group k = none) (k : K) (hk : (m.data.store.group k).isSome) :
    (m.table.current k).isSome := by
  induction course with
  | here =>
    have hk : (b.shared.store.group k).isSome := hk
    rw [bare] at hk
    cases hk
  | start _ _ ih => exact ih hk
  | @step ops hist m i env t d table data t' before thread op _ allowed step ih =>
    rcases step.call_or_not with ⟨c, rfl, rfl⟩ | ⟨hd, rfl⟩
    · refine step.current_isSome ?_ nofun
      by_cases hm : ∃ method, Request.method? c = some (method, k)
      · -- the call is made in a section of the key
        obtain ⟨method, hm⟩ := hm
        obtain ⟨h, hs, rfl⟩ := (Progress.allows_called.1 allowed).stay hm
        exact Option.isSome_of_eq_some ((before.stay_kept fresh hs).current rfl)
      · refine ih ?_
        rw [← Shared.group_perform_of_ne fun method h => hm ⟨method, h⟩]
        exact hk
    · have entry := ih hk
      by_cases hf : ∃ depth b, d = .forgot depth b
      · obtain ⟨depth, r, rfl⟩ := hf
        have knows := before.knows fresh i
        have sections := before.sections_of_thread thread
        generalize b.progress i hist = φ at knows sections allowed
        cases allowed with
        | @forgot h u =>
          cases step with
          | forgot found =>
            cases sections
            cases found
            have vacant : m.data.store.group h.key = none := knows
            have hne : h.key ≠ k := by
              rintro rfl
              have hk : (m.data.store.group h.key).isSome := hk
              rw [vacant] at hk
              cases hk
            show ((m.table.unlink h.key h.token).2.current k).isSome
            rw [LockTable.current_unlink, if_neg fun hc => hne hc.2]
            exact entry
          | forgotNothing => exact entry
      · exact step.current_isSome entry fun depth r hr => hf ⟨depth, r, hr⟩

/-- A section that closes leaves no entry without a group behind, unless someone is about to remove the entry. -/
theorem retired_of_closed (course : b.Course ops hist m) (fresh : b.table = .new .validated)
    (whole : ∀ e ∈ hist, ¬ e.deed.Breaks) {n : Nat} {t : Thread K (Request.interface K M) (Answer K M)} {h : Held K}
    {hs : List (Held K)} {op : Operation K M} (thread : m.threads[n]? = some t) (ht : t.sections = h :: hs)
    (allowed : (b.progress n hist).Allows b.rules op .closed) (hg : m.data.store.group h.key = none) :
    (m.table.token h.token).retired = true := by
  have knows := course.knows fresh n
  have sure := course.not_unsure fresh whole n
  have sections := course.sections_of_thread thread
  have retired := fun s hs => course.reaches.retired_of_begun rfl (sound_start fresh) s (course.mem_staysOf (n := n) hs)
  rw [ht] at sections
  generalize b.progress n hist = φ at allowed knows sure sections retired
  cases allowed with
  | @closed h' u fate =>
    cases fate with
    | kept =>
      obtain ⟨rfl, -⟩ := List.cons.inj sections
      have knows : (m.data.store.group h'.key).isSome := knows
      have hg : m.data.store.group h'.key = none := hg
      rw [hg] at knows
      cases knows
    | forgotten =>
      obtain ⟨rfl, -⟩ := List.cons.inj sections
      exact retired { held := h', begun := 1, ended := 1 } rfl nofun
    | missing => exact absurd (by rw [fresh]; rfl) knows
    | unknown => exact (sure trivial).elim

section Step

variable {j : Nat} {env : Surroundings} {t t' : Thread K (Request.interface K M) (Answer K M)}
  {d : Deed K (Request.interface K M)} {table : LockTable K} {data : Shared K M} {op : Operation K M} {k : K}
  {i : TokenId}

/-- An entry without a group that is in use stays so when a thread makes a step. -/
theorem use_after (course : b.Course ops hist m) (fresh : b.table = .new .validated)
    (whole : ∀ e ∈ hist, ¬ e.deed.Breaks) (thread : m.threads[j]? = some t)
    (allowed : (b.progress j hist).Allows b.rules op d)
    (step : t.Step Shared.service env m.table m.data d table data t') (entry : m.table.current k = some i)
    (hg : m.data.store.group k = none) {n : Nat} {x : Thread K (Request.interface K M) (Answer K M)}
    (hx : m.threads[n]? = some x) (uses : x.Uses ⟨k, i⟩) :
    ∃ (n' : Nat) (x' : Thread K (Request.interface K M) (Answer K M)),
      (m.after j table data t').threads[n']? = some x' ∧ x'.Uses ⟨k, i⟩ := by
  by_cases hn : n = j
  · subst hn
    have self : (m.after n table data t').threads[n]? = some t' := Machine.threads_after_self thread
    rw [thread] at hx
    cases hx
    -- if the token is retired, it is the thread that is about to remove the entry that uses it
    have ending (hr : (m.table.token i).retired = true) (calm : t.ending? = none) :
        ∃ (n' : Nat) (x' : Thread K (Request.interface K M) (Answer K M)),
          (m.after n table data t').threads[n']? = some x' ∧ x'.Uses ⟨k, i⟩ := by
      obtain ⟨n', x', hx', about⟩ := (course.sound fresh).ending k i entry hr
      refine ⟨n', x', (Machine.threads_after thread).2 (.inr ⟨?_, hx'⟩), .inr (Thread.mem_of_ending? about)⟩
      rintro rfl
      rw [thread] at hx'
      cases hx'
      cases calm.symm.trans about
    rcases uses with waits | inside
    · cases step with
      | declined _ stale =>
        cases waits
        exact ending (Bool.and_eq_true_iff.1 stale).1 rfl
      | @opened k' next i' hs _ _ =>
        cases waits
        have hkey : k = k' := (((course.sound fresh).fits n _ thread).wants i rfl).2 k' next rfl k entry
        subst hkey
        exact ⟨n, _, self, .inr (List.mem_cons_self ..)⟩
      | _ => cases waits
    · cases step with
      | @closed next h hs =>
        rcases List.mem_cons.1 inside with rfl | inside
        · exact ending (course.retired_of_closed fresh whole thread rfl allowed hg) rfl
        · exact ⟨n, _, self, .inr inside⟩
      | closedNothing => cases inside
      | opened => exact ⟨n, _, self, .inr (List.mem_cons_of_mem _ inside)⟩
      | _ => exact ⟨n, _, self, .inr inside⟩
  · exact ⟨n, x, (Machine.threads_after thread).2 (.inr ⟨hn, hx⟩), uses⟩

/-- The entry of a key whose group has just been dropped is in use by the thread that has dropped it. -/
theorem use_of_dropped (course : b.Course ops hist m) (fresh : b.table = .new .validated)
    (thread : m.threads[j]? = some t) (allowed : (b.progress j hist).Allows b.rules op d)
    (step : t.Step Shared.service env m.table m.data d table data t') (entry : m.table.current k = some i)
    (before : m.data.store.group k ≠ none) (after : data.store.group k = none) : t'.Uses ⟨k, i⟩ := by
  rcases step.call_or_not with ⟨c, rfl, rfl⟩ | ⟨-, rfl⟩
  · have hm : ∃ method, Request.method? c = some (method, k) := by
      by_contra hm
      refine before ?_
      rw [← Shared.group_perform_of_ne fun method h => hm ⟨method, h⟩]
      exact after
    obtain ⟨method, hm⟩ := hm
    obtain ⟨h, hs, rfl⟩ := (Progress.allows_called.1 allowed).stay hm
    have current := (course.stay_kept fresh hs).current rfl
    rw [entry] at current
    cases current
    have inside := course.mem_sections thread hs
    cases step with
    | called => exact .inr inside
  · exact absurd after before

end Step

/-- An entry without a group is in use: some thread waits for its token, or is in a section under it. -/
theorem in_use (course : b.Course ops hist m) (fresh : b.table = .new .validated)
    (whole : ∀ e ∈ hist, ¬ e.deed.Breaks) {k : K} {i : TokenId} (hk : m.table.current k = some i)
    (hg : m.data.store.group k = none) :
    ∃ (n : Nat) (t : Thread K (Request.interface K M) (Answer K M)), m.threads[n]? = some t ∧ t.Uses ⟨k, i⟩ := by
  induction course with
  | here =>
    have hk : b.table.current k = some i := hk
    rw [fresh] at hk
    cases hk
  | start p _ ih =>
    obtain ⟨n, t, ht, uses⟩ := ih whole hk hg
    exact ⟨n, t, Machine.threads_start.2 (.inl ht), uses⟩
  | @step ops hist m j env t d table data t' before thread op _ allowed step ih =>
    have whole' : ∀ e ∈ hist, ¬ e.deed.Breaks := fun e he => whole e (List.mem_append_left _ he)
    have self : (m.after j table data t').threads[j]? = some t' := Machine.threads_after_self thread
    rcases step.current_new hk with old | waits | ⟨k', i', rfl⟩
    · by_cases hold : m.data.store.group k = none
      · obtain ⟨n, x, hx, uses⟩ := ih whole' old hold
        exact before.use_after fresh whole' thread allowed step old hold hx uses
      · exact ⟨j, t', self, before.use_of_dropped fresh thread allowed step old hold hg⟩
    · exact ⟨j, t', self, .inl waits⟩
    · -- an operation fetches no token outside a section
      generalize b.progress j hist = φ at allowed
      cases allowed

end Barrier.Course

/-- **Groups and entries.** In every state of every run of a validated barrier on a store of any capacity, each key
with a group has an entry in the lock table. If moreover no call on the store has failed for another reason than a full
store, and every operation has answered, then the keys with an entry are exactly the keys with a group. -/
theorem Barrier.groups_tracked [DecidableEq K] [BEq M] (rules : Rules K M) (capacity : Nat) (turns : List (Turn K M)) :
    let b := Barrier.new rules .validated capacity
    let m := b.play turns
    (∀ k, (m.data.store.group k).isSome → k ∈ m.table.keys) ∧
    ((∀ e ∈ b.chronicle turns, ¬ e.deed.Breaks) → (∀ t ∈ m.threads, t.answer?.isSome) →
      ∀ k, k ∈ m.table.keys ↔ (m.data.store.group k).isSome) := by
  intro b m
  have course : b.Course (operations turns) (b.chronicle turns) m := b.course_play turns
  have tracked (k : K) (hk : (m.data.store.group k).isSome) : k ∈ m.table.keys :=
    Assoc.get?_isSome.1 (course.tracked rfl (fun _ => rfl) k hk)
  refine ⟨tracked, fun whole answered k => ⟨fun hk => ?_, tracked k⟩⟩
  obtain ⟨i, hi⟩ := Option.isSome_iff_exists.1 (Assoc.get?_isSome.2 hk)
  cases hg : m.data.store.group k with
  | some g => rfl
  | none =>
    -- an entry without a group is in use, and a thread that has answered uses none
    obtain ⟨n, t, ht, uses⟩ := course.in_use rfl whole hi hg
    have done := answered t (List.mem_of_getElem? ht)
    obtain ⟨a, ha⟩ := Option.isSome_iff_exists.1 done
    obtain ⟨op, hop⟩ := course.operation_of_thread ht
    rcases uses with waits | inside
    · rw [(course.ends ht hop ha).1] at waits
      cases waits
    · rw [course.sections_of_answered ht done] at inside
      cases inside

end CorrelationBarrier
