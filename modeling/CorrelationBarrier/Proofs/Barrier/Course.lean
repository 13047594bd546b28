import CorrelationBarrier.Barrier.Threads
import CorrelationBarrier.Proofs.Barrier.Calls
import CorrelationBarrier.Proofs.Barrier.Progress

/-!
# The course of a barrier

Runs of many threads on one barrier, each thread with an operation of its own.

* `Turn` — an operation starts in a thread of its own, or a thread makes a step; `Barrier.play` and `Barrier.chronicle`
  run a series of turns and note what happens;
* `Barrier.progress` — how far a thread is, as the chronicle shows it;
* `Barrier.Course` — the runs as a relation, in which every deed is one that the progress of its thread allows;
  `Barrier.course_play` shows that all runs are such;
* `Progress.Knows` — what a thread in the midst of a section knows of the group of its key; `Course.knows_at` shows that
  it holds as long as no other thread is in a section of that key (`Barrier.Exclusive`), and `Course.knows` that on a
  validated table it holds in every state.
-/

namespace CorrelationBarrier

variable {K M : Type}

/-! ## threads keep to their progress -/

section Keeps

variable (rules : Rules K M) (policy : TokenPolicy) (op : Operation K M)

/-- What a thread still has to do is what its progress allows. -/
def Progress.KeptBy (φ : Progress K M) (t : Thread K (Request.interface K M) (Answer K M)) : Prop :=
  match t.stage with
  | .retiring => ∃ depth next, t.program = .forget depth next ∧ ∀ b, φ.Allows rules op (.forgot depth b) ∧
      Act.Conforms rules policy op (fun φ a => φ.Ends rules op a) (next b) (φ.after rules policy (.forgot depth b))
  | _ => Act.Conforms rules policy op (fun φ a => φ.Ends rules op a) t.program φ

variable {rules policy op}

theorem Progress.after_outside {φ : Progress K M} {d : Deed K (Request.interface K M)}
    (h : (∃ k i, d = .sought k i) ∨ (∃ i, d = .declined i) ∨ ∃ i, d = .gaveBack i) : φ.after rules policy d = φ := by
  rcases h with ⟨k, i, rfl⟩ | ⟨i, rfl⟩ | ⟨i, rfl⟩ <;> cases φ <;> rfl

variable [DecidableEq K] [BEq M] {env : Surroundings} {table table' : LockTable K} {data data' : Shared K M}
  {t t' : Thread K (Request.interface K M) (Answer K M)} {d : Deed K (Request.interface K M)}

/-- A thread does what its progress allows, and goes on keeping to it. -/
theorem Progress.KeptBy.step {φ : Progress K M} (kept : φ.KeptBy rules policy op t)
    (sections : φ.stay?.toList.map (·.held) = t.sections)
    (step : t.Step Shared.service env table data d table' data' t') :
    φ.Allows rules op d ∧ (φ.after rules policy d).KeptBy rules policy op t' := by
  cases step with
  | fetched => exact kept _
  | looked => exact kept _
  | sought =>
    rw [Progress.after_outside (.inl ⟨_, _, rfl⟩)]
    exact ⟨(kept _).1, kept⟩
  | declined =>
    rw [Progress.after_outside (.inr (.inl ⟨_, rfl⟩))]
    exact ⟨(kept _).2.1, kept⟩
  | gaveBack =>
    rw [Progress.after_outside (.inr (.inr ⟨_, rfl⟩))]
    exact ⟨(kept _).2.2.1, kept⟩
  | opened => exact ⟨(kept _).2.2.2.1, (kept _).2.2.2.2⟩
  | closed | closedNothing => exact kept
  | retired => exact ⟨kept.1, _, _, rfl, kept.2⟩
  | forgot =>
    obtain ⟨depth, next, hnext, kept⟩ := kept
    cases hnext
    exact kept _
  | forgotNothing missing =>
    -- a key is forgotten inside its section only
    cases kept.1 with
    | retired =>
      cases sections
      cases missing
  | asked | askedNothing => exact kept _
  | @called c next hs =>
    refine ⟨Progress.allows_called.2 kept.1, ?_⟩
    rw [Progress.after_called]
    exact kept.2 _

end Keeps

/-! ## runs of operations -/

/-- What comes next in a run: an operation starts in a thread of its own, or a thread makes a step. -/
inductive Turn (K M : Type) where
  | start (op : Operation K M)
  | advance (thread : Nat) (env : Surroundings)

/-- What happens on a barrier. -/
abbrev Occurrence (K M : Type) := Happening K (Request.interface K M) Surroundings (Shared K M)

namespace Barrier

variable (b : Barrier K M)

/-- A turn as a move of the machine. -/
def moveOf : Turn K M → Move K (Request.interface K M) Surroundings (Answer K M)
  | .start op => .start (b.actOf op)
  | .advance i env => .advance i env

/-- The operations that start in a series of turns; the thread with the same number runs the operation. -/
def operations : List (Turn K M) → List (Operation K M) :=
  List.filterMap fun | .start op => some op | .advance _ _ => none

theorem operations_append (turns turns' : List (Turn K M)) :
    operations (turns ++ turns') = operations turns ++ operations turns' := List.filterMap_append

/-- How far a thread is, as the chronicle shows it. -/
def progress (n : Nat) (hist : List (Occurrence K M)) : Progress K M :=
  (deedsOf n hist).foldl (Progress.after b.rules b.table.policy) .idle

variable {b} in
theorem progress_append (n : Nat) (hist : List (Occurrence K M)) (e : Occurrence K M) :
    b.progress n (hist ++ [e]) =
      if e.thread = n then (b.progress n hist).after b.rules b.table.policy e.deed else b.progress n hist := by
  rw [progress, deedsOf_append, deedsOf_one]
  split
  · rw [List.foldl_append]
    rfl
  · rw [List.append_nil]
    rfl

variable [DecidableEq K] [BEq M]

/-- The machine after a series of turns, from the barrier as it is. -/
def play (turns : List (Turn K M)) : Threads K M := b.toThreads.run Shared.service (turns.map b.moveOf)

/-- What happens in a series of turns, oldest first. -/
def chronicle (turns : List (Turn K M)) : List (Occurrence K M) :=
  b.toThreads.history Shared.service (turns.map b.moveOf)

theorem play_concat (turns : List (Turn K M)) (turn : Turn K M) :
    b.play (turns ++ [turn]) = (b.play turns).move Shared.service (b.moveOf turn) := by
  rw [play, List.map_append, Machine.run_append]
  rfl

theorem chronicle_concat (turns : List (Turn K M)) (turn : Turn K M) :
    b.chronicle (turns ++ [turn]) =
      b.chronicle turns ++ ((b.play turns).happening? Shared.service (b.moveOf turn)).toList := by
  rw [chronicle, List.map_append, Machine.history_append]
  exact congrArg _ (List.append_nil _)

/-- `b.Course ops hist m`: a run of the operations `ops` on `b`, in which `hist` happens, leads to `m`. -/
inductive Course : List (Operation K M) → List (Occurrence K M) → Threads K M → Prop where
  | here : Course [] [] b.toThreads
  | start {ops hist m} (op : Operation K M) (before : Course ops hist m) :
    Course (ops ++ [op]) hist (m.start (b.actOf op))
  | step {ops hist m i env t d table data t'} (before : Course ops hist m) (thread : m.threads[i]? = some t) (op)
    (operation : ops[i]? = some op) (allowed : (b.progress i hist).Allows b.rules op d)
    (step : t.Step Shared.service env m.table m.data d table data t') :
    Course ops (hist ++ [⟨i, env, m.data, d⟩]) (m.after i table data t')

namespace Course

variable {b} {ops : List (Operation K M)} {hist : List (Occurrence K M)} {m : Threads K M}

theorem reaches (course : b.Course ops hist m) : b.toThreads.Reaches Shared.service hist m := by
  induction course with
  | here => exact .here
  | start op _ ih => exact .start _ ih
  | step _ thread _ _ _ step ih => exact .step ih thread step

theorem length_threads (course : b.Course ops hist m) : m.threads.length = ops.length := by
  induction course with
  | here => rfl
  | start op _ ih => simp [Machine.start, ih]
  | step _ _ _ _ _ _ ih => simpa [Machine.after] using ih

/-- The progress of a thread shows its open sections. -/
theorem stays (course : b.Course ops hist m) (n : Nat) : staysOf n hist = (b.progress n hist).stay?.toList := by
  induction course with
  | here => rfl
  | start _ _ ih => exact ih
  | @step ops hist m i env t d table data t' _ _ op _ allowed _ ih =>
    rw [staysOf_append, progress_append]
    by_cases hi : i = n
    · subst hi
      rw [if_pos rfl, if_pos rfl, ih]
      exact Progress.stays_after allowed
    · rw [if_neg hi, if_neg hi]
      exact ih

theorem sections_of_thread (course : b.Course ops hist m) {n : Nat}
    {t : Thread K (Request.interface K M) (Answer K M)} (ht : m.threads[n]? = some t) :
    (b.progress n hist).stay?.toList.map (·.held) = t.sections := by
  rw [← course.stays]
  exact course.reaches.sections_of_thread rfl ht

/-- The progress of a thread that has not begun. -/
theorem progress_of_none (course : b.Course ops hist m) {n : Nat} (hn : m.threads[n]? = none) :
    b.progress n hist = .idle := by
  induction course with
  | here => rfl
  | @start ops hist m op _ ih =>
    refine ih ?_
    cases ht : m.threads[n]? with
    | none => rfl
    | some t =>
      rw [Machine.threads_start.2 (.inl ht)] at hn
      cases hn
  | @step ops hist m i env t d table data t' _ thread op _ _ _ ih =>
    rw [progress_append]
    by_cases hi : i = n
    · subst hi
      rw [Machine.threads_after_self thread] at hn
      cases hn
    · rw [Machine.threads_after_of_ne (Ne.symm hi)] at hn
      rw [if_neg hi]
      exact ih hn

/-- Every thread keeps to its progress. -/
theorem kept (course : b.Course ops hist m) {n : Nat} {t : Thread K (Request.interface K M) (Answer K M)}
    {op : Operation K M} (ht : m.threads[n]? = some t) (hop : ops[n]? = some op) :
    (b.progress n hist).KeptBy b.rules b.table.policy op t := by
  induction course generalizing t with
  | here => cases ht
  | @start ops hist m op' before ih =>
    rcases Machine.threads_start.1 ht with ht | ⟨rfl, rfl⟩
    · have hlt : n < ops.length := before.length_threads ▸ (List.getElem?_eq_some_iff.1 ht).1
      rw [List.getElem?_append_left hlt] at hop
      exact ih ht hop
    · rw [before.length_threads, List.getElem?_concat_length] at hop
      cases hop
      rw [before.progress_of_none (List.getElem?_eq_none (Nat.le_refl _))]
      exact Act.conforms_ofOperation b.rules b.table.policy op
  | @step ops hist m i env t₀ d table data t' before thread op' hop' allowed step ih =>
    rw [progress_append]
    rcases (Machine.threads_after thread).1 ht with ⟨rfl, rfl⟩ | ⟨hne, ht⟩
    · rw [if_pos rfl]
      exact ((ih thread hop).step (before.sections_of_thread thread) step).2
    · rw [if_neg (Ne.symm hne)]
      exact ih ht hop

end Course

/-- Every series of turns is a course. -/
theorem course_play (turns : List (Turn K M)) : b.Course (operations turns) (b.chronicle turns) (b.play turns) := by
  induction turns using List.reverseRecOn with
  | nil => exact .here
  | append_singleton turns turn ih =>
    rw [b.chronicle_concat, b.play_concat, operations_append]
    cases turn with
    | start op =>
      show b.Course _ (_ ++ []) _
      rw [List.append_nil]
      exact .start op ih
    | advance i env =>
      show b.Course (_ ++ []) _ _
      rw [List.append_nil]
      rcases (b.play turns).move_cases Shared.service (b.moveOf (.advance i env)) with
        ⟨p, hp, -⟩ | ⟨i, env, t, d, table, data, t', -, ht, step, hh, hm⟩ | ⟨hh, hm⟩
      · cases hp
      · have hlt : i < (operations turns).length := ih.length_threads ▸ (List.getElem?_eq_some_iff.1 ht).1
        have hop : (operations turns)[i]? = some (operations turns)[i] := List.getElem?_eq_getElem hlt
        rw [hh, hm]
        exact .step ih ht _ hop ((ih.kept ht hop).step (ih.sections_of_thread ht) step).1 step
      · rw [hh, hm, Option.toList_none, List.append_nil]
        exact ih

end Barrier

/-! ## what a section knows of its key -/

namespace Progress

/-- What a section has learnt of the group of its key, and of the release rule. -/
def Knows [DecidableEq K] (rules : Rules K M) (policy : TokenPolicy) (store : GroupStore K M) : Progress K M → Prop
  | .saw h g => store.group h.key = some g
  | .cleared h g now => store.group h.key = some g ∧ rules.release g now = .ok true
  | .vacant h _ | .forgetting h _ | .telling h _ _ .missing => store.group h.key = none
  | .telling h _ _ .kept | .settled h _ .kept => (store.group h.key).isSome
  | .settled _ _ .missing => policy ≠ .validated
  | _ => True

variable [DecidableEq K] {rules : Rules K M} {policy : TokenPolicy} {op : Operation K M}

/-- What a section knows depends on the group of its key only, and on that only until the key is forgotten. -/
theorem Knows.congr {store store' : GroupStore K M} {φ : Progress K M} (knows : φ.Knows rules policy store)
    (same : ∀ s ∈ φ.stay?, s.ended = 0 → store'.group s.held.key = store.group s.held.key) :
    φ.Knows rules policy store' := by
  cases φ with
  | saw h g => exact (same _ rfl rfl).trans knows
  | cleared h g now => exact ⟨(same _ rfl rfl).trans knows.1, knows.2⟩
  | vacant h u | forgetting h u => exact (same _ rfl rfl).trans knows
  | telling h event u fate =>
    cases fate with
    | kept => exact (congrArg Option.isSome (same { held := h } rfl rfl)).trans knows
    | missing => exact (same { held := h } rfl rfl).trans knows
    | _ => exact trivial
  | settled h u fate =>
    cases fate with
    | kept => exact (congrArg Option.isSome (same { held := h } rfl rfl)).trans knows
    | _ => exact knows
  | _ => exact trivial

/-- Outside a section there is nothing to know. -/
theorem knows_of_no_stay {store : GroupStore K M} {φ : Progress K M} (outside : φ.stay? = none) :
    φ.Knows rules policy store := by
  cases φ with
  | idle | left | counted | finished => exact trivial
  | telling h event u fate | settled h u fate =>
    simp only [stay?] at outside
    split at outside <;> cases outside
  | _ => cases outside

variable [BEq M] {env : Surroundings} {data : Shared K M}

/-- What a section knows after its own call. -/
theorem knows_afterCall {φ : Progress K M} {c : Request K M} (hc : φ.AllowsCall rules op c)
    (knows : φ.Knows rules policy data.store) :
    (φ.afterCall rules policy c (data.perform env c).1).Knows rules policy (data.perform env c).2.store := by
  have failed {f : Failure StoreError} {α : Type} {method : StoreMethod} {h : Held K} {g : Group K M}
      {effect : GroupStore K M → Except StoreError (α × GroupStore K M)} (hg : data.store.group h.key = some g)
      (hr : (data.onStore env method h.key effect).1 = .error f) :
      ((data.onStore env method h.key effect).2.store.group h.key).isSome := by
    rw [Shared.onStore_error hr]
    exact Option.isSome_of_eq_some hg
  cases hc with
  | @add h m =>
    show (afterAdd policy h _).Knows rules policy _
    rcases hr : (data.perform env (.add h.key m)).1 with (e | text) | ⟨⟩
    · cases policy <;> exact trivial
    · exact trivial
    · show ((data.perform env (.add h.key m)).2.store.group h.key).isSome
      rw [GroupStore.group_add (Shared.perform_add_ok hr), if_pos rfl]
      rfl
  | @group h =>
    show (afterGroup h _).Knows rules policy _
    rw [Shared.store_perform_group]
    rcases hr : (data.perform env (.group h.key)).1 with f | (_ | g)
    · exact trivial
    · exact (Shared.perform_group_ok hr).2
    · exact (Shared.perform_group_ok hr).2
  | @lookUp h e =>
    show (afterLookup h e _).Knows rules policy _
    rw [Shared.store_perform_group]
    rcases hr : (data.perform env (.group h.key)).1 with (e' | text) | (_ | g)
    · exact trivial
    · exact trivial
    · exact (Shared.perform_group_ok hr).2
    · exact Option.isSome_of_eq_some (Shared.perform_group_ok hr).2
  | @clock h g =>
    show (afterClock rules h g env.now).Knows rules policy data.store
    unfold afterClock
    rcases hr : rules.release g env.now with f | (_ | _)
    · exact Option.isSome_of_eq_some knows
    · exact Option.isSome_of_eq_some knows
    · exact ⟨knows, hr⟩
  | @mark h g now m =>
    show (afterHandOut h m _).Knows rules policy _
    cases hr : (data.perform env (.mark h.key m)).1 with
    | error f => exact failed knows.1 hr
    | ok r =>
      show ((data.perform env (.mark h.key m)).2.store.group h.key).isSome
      rw [Shared.perform_mark_ok hr, GroupStore.mark, GroupStore.group_change, if_pos rfl, knows.1]
      rfl
  | @remove h g now m =>
    show (afterHandOut h m _).Knows rules policy _
    cases hr : (data.perform env (.remove h.key m)).1 with
    | error f => exact failed knows.1 hr
    | ok r =>
      show ((data.perform env (.remove h.key m)).2.store.group h.key).isSome
      rw [Shared.perform_remove_ok hr, GroupStore.remove, GroupStore.group_change, if_pos rfl, knows.1]
      rfl
  | @dropGroup h g now =>
    show (afterDrop h _).Knows rules policy _
    cases hr : (data.perform env (.dropGroup h.key)).1 with
    | error f => exact failed knows.1 hr
    | ok r =>
      show (data.perform env (.dropGroup h.key)).2.store.group h.key = none
      rw [Shared.perform_dropGroup_ok hr, GroupStore.group_dropGroup, if_pos rfl]
  | @report h event u fate =>
    show (afterReport policy h u fate).Knows rules policy data.store
    cases fate with
    | missing =>
      cases policy with
      | validated => exact knows
      | tolerant =>
        intro validated
        cases validated
    | _ => exact knows
  | @count u =>
    show (afterCount u).Knows rules policy _
    unfold afterCount
    split <;> exact trivial
  | announce => exact trivial

omit [BEq M] in
/-- What a section knows after another deed of its own. -/
theorem Knows.after {φ : Progress K M} {d : Deed K (Request.interface K M)} {store : GroupStore K M}
    (knows : φ.Knows rules policy store) (hd : ∀ c r, d ≠ .called c r) (allowed : φ.Allows rules op d) :
    (φ.after rules policy d).Knows rules policy store := by
  cases allowed with
  | called => exact absurd rfl (hd _ _)
  | @closed h u fate =>
    show (afterClose u).Knows rules policy store
    unfold afterClose
    split <;> exact trivial
  | @forgot h u =>
    show (afterForget h u).Knows rules policy store
    unfold afterForget
    split <;> exact trivial
  | retired => exact knows
  | opened | looked | sought | declined | gaveBack => exact trivial

omit [DecidableEq K] [BEq M] in
/-- Calls on the store are made inside a section of their key that has not begun to forget it. -/
theorem AllowsCall.stay {φ : Progress K M} {c : Request K M} (hc : φ.AllowsCall rules op c) {method : StoreMethod}
    {k : K} (hm : c.method? = some (method, k)) : ∃ h, φ.stay? = some { held := h } ∧ h.key = k := by
  cases hc with
  | clock | report | count | announce => cases hm
  | _ =>
    cases hm
    exact ⟨_, rfl, rfl⟩

end Progress

namespace Barrier

/-- In no state of a run with this chronicle are two threads in sections of `k` that have not ended forgetting it. -/
def Exclusive (b : Barrier K M) (k : K) (hist : List (Occurrence K M)) : Prop :=
  ∀ pre, pre <+: hist → ∀ n n' s s', (b.progress n pre).stay? = some s → (b.progress n' pre).stay? = some s' →
    s.ended = 0 → s'.ended = 0 → s.held.key = k → s'.held.key = k → n = n'

theorem Exclusive.before {b : Barrier K M} {k : K} {hist : List (Occurrence K M)} {e : Occurrence K M}
    (alone : b.Exclusive k (hist ++ [e])) : b.Exclusive k hist :=
  fun pre h => alone pre (h.trans (List.prefix_append ..))

end Barrier

namespace Barrier.Course

variable [DecidableEq K] [BEq M] {b : Barrier K M} {ops : List (Operation K M)} {hist : List (Occurrence K M)}
  {m : Threads K M}

theorem validated (course : b.Course ops hist m) (fresh : b.table = .new .validated) : m.table.policy = .validated := by
  refine course.reaches.policy.trans ?_
  rw [toThreads, fresh]
  rfl

omit [BEq M] in
theorem sound_start (fresh : b.table = .new .validated) : b.toThreads.Sound := by
  rw [toThreads, fresh]
  exact Machine.sound_new .validated b.shared

theorem sound (course : b.Course ops hist m) (fresh : b.table = .new .validated) : m.Sound :=
  course.reaches.sound (sound_start fresh)

theorem mem_staysOf (course : b.Course ops hist m) {n : Nat} {s : Stay K} (hs : (b.progress n hist).stay? = some s) :
    s ∈ staysOf n hist := by
  rw [course.stays, hs]
  exact List.mem_singleton.2 rfl

theorem mem_sections (course : b.Course ops hist m) {n : Nat} {t : Thread K (Request.interface K M) (Answer K M)}
    (ht : m.threads[n]? = some t) {s : Stay K} (hs : (b.progress n hist).stay? = some s) : s.held ∈ t.sections := by
  rw [← course.sections_of_thread ht, hs]
  exact List.mem_singleton.2 rfl

/-- A section can rely on its token until it forgets its key. -/
theorem stay_kept (course : b.Course ops hist m) (fresh : b.table = .new .validated) {n : Nat} {s : Stay K}
    (hs : (b.progress n hist).stay? = some s) : s.Kept m.table :=
  course.reaches.kept rfl (sound_start fresh) (Course.here.validated fresh) n s (course.mem_staysOf hs)

/-- Two threads in sections of one key that have not ended forgetting it are the same. -/
theorem stay_unique (course : b.Course ops hist m) (fresh : b.table = .new .validated) {n n' : Nat} {s s' : Stay K}
    (hs : (b.progress n hist).stay? = some s) (hs' : (b.progress n' hist).stay? = some s') (he : s.ended = 0)
    (he' : s'.ended = 0) (hk : s.held.key = s'.held.key) : n = n' :=
  (course.reaches.stay_unique rfl (sound_start fresh) (Course.here.validated fresh) (course.mem_staysOf hs)
    (course.mem_staysOf hs') he he' hk).1

/-- Every stretch from the beginning of a run is a run. -/
theorem of_prefix (course : b.Course ops hist m) {pre : List (Occurrence K M)} (h : pre <+: hist) :
    ∃ ops' m', b.Course ops' pre m' := by
  induction course with
  | here =>
    rw [List.prefix_nil.1 h]
    exact ⟨_, _, .here⟩
  | start _ _ ih => exact ih h
  | step before thread op operation allowed step ih =>
    rcases List.prefix_concat_iff.1 h with rfl | h
    · exact ⟨_, _, .step before thread op operation allowed step⟩
    · exact ih h

/-- On a validated table every key is exclusive. -/
theorem exclusive (course : b.Course ops hist m) (fresh : b.table = .new .validated) (k : K) : b.Exclusive k hist := by
  intro pre h n n' s s' hs hs' he he' hk hk'
  obtain ⟨_, _, course⟩ := course.of_prefix h
  exact course.stay_unique fresh hs hs' he he' (hk.trans hk'.symm)

/-- A call of one thread leaves the groups of the sections of all others as they are. -/
theorem group_of_other {k : K} (alone : b.Exclusive k hist) {i n : Nat} (hne : i ≠ n) {op : Operation K M}
    {c : Request K M} (hc : (b.progress i hist).AllowsCall b.rules op c) {s : Stay K}
    (hs : (b.progress n hist).stay? = some s) (he : s.ended = 0) (hk : s.held.key = k) (env : Surroundings)
    (data : Shared K M) : (data.perform env c).2.store.group s.held.key = data.store.group s.held.key := by
  refine Shared.group_perform_of_ne fun method hm => ?_
  obtain ⟨h, hh, hk'⟩ := hc.stay hm
  exact hne (alone hist (List.prefix_refl _) i n _ s hh hs rfl he (hk'.trans hk) hk)

/-- What a section knows of an exclusive key is so. -/
theorem knows_at (course : b.Course ops hist m) {k : K} (alone : b.Exclusive k hist) (n : Nat)
    (inside : ∃ s ∈ (b.progress n hist).stay?, s.held.key = k) :
    (b.progress n hist).Knows b.rules b.table.policy m.data.store := by
  induction course with
  | here => exact trivial
  | start _ _ ih => exact ih alone inside
  | @step ops hist m i env t d table data t' before thread op _ allowed step ih =>
    have ih := ih alone.before
    obtain ⟨s, hs, hk⟩ := inside
    rw [progress_append] at hs ⊢
    by_cases hi : i = n
    · subst hi
      rw [if_pos rfl] at hs ⊢
      have mem : s ∈ d.stays (b.progress i hist).stay?.toList := by
        rw [Progress.stays_after allowed]
        exact Option.mem_toList.2 hs
      rcases Deed.held_of_stays mem with rfl | ⟨s₀, hs₀, held⟩
      · generalize b.progress i hist = φ at allowed
        cases allowed with
        | opened => exact trivial
      · have ih := ih ⟨s₀, Option.mem_toList.1 hs₀, held ▸ hk⟩
        rcases step.call_or_not with ⟨c, rfl, rfl⟩ | ⟨hd, rfl⟩
        · rw [Progress.after_called]
          exact Progress.knows_afterCall (Progress.allows_called.1 allowed) ih
        · exact ih.after hd allowed
    · rw [if_neg hi] at hs ⊢
      refine (ih ⟨s, hs, hk⟩).congr fun s' hs' he => ?_
      cases hs.symm.trans hs'
      rcases step.call_or_not with ⟨c, rfl, rfl⟩ | ⟨-, rfl⟩
      · exact group_of_other alone.before hi (Progress.allows_called.1 allowed) hs he hk env m.data
      · rfl

/-- What a section knows of its key is so. -/
theorem knows (course : b.Course ops hist m) (fresh : b.table = .new .validated) (n : Nat) :
    (b.progress n hist).Knows b.rules b.table.policy m.data.store := by
  cases hs : (b.progress n hist).stay? with
  | none => exact Progress.knows_of_no_stay hs
  | some s => exact course.knows_at (course.exclusive fresh s.held.key) n ⟨s, hs, rfl⟩

theorem operation_of_thread (course : b.Course ops hist m) {n : Nat}
    {t : Thread K (Request.interface K M) (Answer K M)} (ht : m.threads[n]? = some t) : ∃ op, ops[n]? = some op :=
  ⟨_, List.getElem?_eq_getElem (course.length_threads ▸ (List.getElem?_eq_some_iff.1 ht).1)⟩

/-- Only threads that have begun do anything. -/
theorem thread_lt (course : b.Course ops hist m) : ∀ e ∈ hist, e.thread < ops.length := by
  induction course with
  | here => nofun
  | start op _ ih =>
    intro e he
    rw [List.length_append]
    exact Nat.lt_add_right _ (ih e he)
  | @step ops hist m i env t d table data t' before thread op operation _ _ ih =>
    intro e he
    rcases List.mem_append.1 he with he | he
    · exact ih e he
    · obtain rfl := List.mem_singleton.1 he
      exact (List.getElem?_eq_some_iff.1 operation).1

/-- A thread that has answered has the progress with which its operation may end, and is in the midst of nothing. -/
theorem ends (course : b.Course ops hist m) {n : Nat} {t : Thread K (Request.interface K M) (Answer K M)}
    {op : Operation K M} (ht : m.threads[n]? = some t) (hop : ops[n]? = some op) {a : Answer K M}
    (ha : t.answer? = some a) : t.stage = .ready ∧ (b.progress n hist).Ends b.rules op a := by
  have kept := course.kept ht hop
  have ready : t.stage = .ready := by
    rcases course.reaches.ready_or_running rfl n t ht with h | h
    · exact h
    · rw [ha] at h
      cases h
  obtain ⟨p, stage, hs⟩ := t
  cases ready
  cases p with
  | done a' =>
    cases ha
    exact ⟨rfl, kept⟩
  | _ => cases ha

/-- A thread that has answered is in no section. -/
theorem sections_of_answered (course : b.Course ops hist m) {n : Nat}
    {t : Thread K (Request.interface K M) (Answer K M)} (ht : m.threads[n]? = some t) (ha : t.answer?.isSome) :
    t.sections = [] := by
  obtain ⟨a, ha⟩ := Option.isSome_iff_exists.1 ha
  obtain ⟨op, hop⟩ := course.operation_of_thread ht
  have ends := (course.ends ht hop ha).2
  have sections := course.sections_of_thread ht
  generalize b.progress n hist = φ at ends sections
  rw [← sections]
  cases φ with
  | idle | left | finished => rfl
  | _ => exact ends.elim

/-- An operation is only in sections of keys that it concerns. -/
theorem concerns (course : b.Course ops hist m) {n : Nat} {op : Operation K M} (hop : ops[n]? = some op) {s : Stay K}
    (hs : (b.progress n hist).stay? = some s) : Progress.Concerns b.rules op s.held.key := by
  induction course generalizing s with
  | here => cases hs
  | @start ops hist m op' before ih =>
    cases ht : m.threads[n]? with
    | none =>
      rw [before.progress_of_none ht] at hs
      cases hs
    | some t =>
      have hlt : n < ops.length := before.length_threads ▸ (List.getElem?_eq_some_iff.1 ht).1
      rw [List.getElem?_append_left hlt] at hop
      exact ih hop hs
  | @step ops hist m i env t d table data t' before thread op' hop' allowed step ih =>
    rw [progress_append] at hs
    by_cases hi : i = n
    · subst hi
      rw [if_pos rfl] at hs
      rw [hop'] at hop
      cases hop
      have mem : s ∈ d.stays (b.progress i hist).stay?.toList := by
        rw [Progress.stays_after allowed]
        exact Option.mem_toList.2 hs
      rcases Deed.held_of_stays mem with rfl | ⟨s₀, hs₀, held⟩
      · generalize b.progress i hist = φ at allowed
        cases allowed with
        | opened concerns => exact concerns
      · rw [← held]
        exact ih hop' (Option.mem_toList.1 hs₀)
    · rw [if_neg hi] at hs
      exact ih hop hs

end Barrier.Course

end CorrelationBarrier
