import CorrelationBarrier.Proofs.Barrier.Ledger
import CorrelationBarrier.Proofs.Barrier.Sections
import CorrelationBarrier.Proofs.Identity

/-!
# Up to the first drain of a key

A tolerant table removes the entry of a key for one reason only: a pull has drained the key. As long as no pull has, the
key is as safe as on a validated table.

* `Machine.Reaches.abreast` — while no forgetting removes the entry of a key, whoever waits for the key or is inside a
  section of it has the entry;
* `Progress.Drainage` — what a phase of a tolerant barrier tells of the deeds that may lead to forgetting the key;
* `Barrier.Drains` — the last step of a drain; `Course.drains_of_unlinks` — on a tolerant table no other step removes an
  entry;
* `Course.exclusive_until` — until then nobody else is in a section of the key, so that what `Course.knows_at` and
  `Course.ledger_at` say of exclusive keys holds; `Course.tracked_until` — and the key is tracked.
-/

namespace CorrelationBarrier

/-! ## entries that are never removed -/

section Entries

variable {K : Type} {I : Interface} {σ ε α : Type} [DecidableEq K]

/-- The token of `k` for which a thread waits, or under which it is in a section, is the entry. -/
structure Thread.Abreast (table : LockTable K) (k : K) (t : Thread K I α) : Prop where
  waits : ∀ i next, t.stage = .fetched i → t.program = .enter k next → table.current k = some i
  inside : ∀ h ∈ t.sections, h.key = k → table.current k = some h.token

theorem Thread.Abreast.mono {table table' : LockTable K} {k : K} {t : Thread K I α} (abreast : t.Abreast table k)
    (kept : ∀ i, table.current k = some i → table'.current k = some i) : t.Abreast table' k :=
  ⟨fun i next hs hp => kept i (abreast.waits i next hs hp), fun h hh hk => kept _ (abreast.inside h hh hk)⟩

theorem Thread.Step.abreast {service : Service I ε σ} {env : ε} {table table' : LockTable K} {data data' : σ}
    {t t' : Thread K I α} {d : Deed K I} {k : K} (step : t.Step service env table data d table' data' t')
    (abreast : t.Abreast table k) (kept : ∀ i, table.current k = some i → table'.current k = some i) :
    t'.Abreast table' k := by
  have inside := (abreast.mono kept).inside
  cases step with
  | sought =>
    refine ⟨fun i next hs hp => ?_, inside⟩
    cases hs
    cases hp
    exact LockTable.current_acquire ..
  | @opened k' next i hs =>
    refine ⟨nofun, fun h hh hk => ?_⟩
    rcases List.mem_cons.1 hh with rfl | hh
    · cases hk
      exact kept i (abreast.waits i next rfl rfl)
    · exact inside h hh hk
  | closed => exact ⟨nofun, fun h hh => inside h (List.mem_cons_of_mem _ hh)⟩
  | _ => exact ⟨nofun, inside⟩

namespace Machine

variable {service : Service I ε σ} {m₀ m : Machine K I σ α} {hist : List (Happening K I ε σ)} {k : K}

/-- A step that does not end a forgetting of a key leaves its entry as it is. -/
theorem Reaches.entry_kept (run : m₀.Reaches service hist m) (h₀ : m₀.threads = []) {n : Nat} {env : ε}
    {t t' : Thread K I α} {d : Deed K I} {table : LockTable K} {data : σ} (thread : m.threads[n]? = some t)
    (step : t.Step service env m.table m.data d table data t') (stays : ¬ Unlinks hist ⟨n, env, m.data, d⟩ k)
    (i : TokenId) (entry : m.table.current k = some i) : table.current k = some i := by
  rw [run.unlinks_iff h₀ thread] at stays
  exact step.current_iff.2 (.inr ⟨entry, stays⟩)

/-- While no forgetting removes the entry of a key, every thread is abreast of it. -/
theorem Reaches.abreast (run : m₀.Reaches service hist m) (h₀ : m₀.threads = []) (since : Unforgotten [] k hist) :
    ∀ (n : Nat) (t : Thread K I α), m.threads[n]? = some t → t.Abreast m.table k := by
  induction run with
  | here => simp [h₀]
  | start p _ ih =>
    intro n t ht
    rcases threads_start.1 ht with ht | ⟨-, rfl⟩
    · exact ih since n t ht
    · exact ⟨nofun, nofun⟩
  | step run thread step ih =>
    obtain ⟨since, stays⟩ := unforgotten_append.1 since
    have kept := run.entry_kept h₀ thread step stays
    intro n t ht
    rcases (threads_after thread).1 ht with ⟨-, rfl⟩ | ⟨-, ht⟩
    · exact step.abreast (ih since _ _ thread) kept
    · exact (ih since n t ht).mono kept

/-- Then no two threads are in sections of the key. -/
theorem Reaches.alone (run : m₀.Reaches service hist m) (h₀ : m₀.threads = []) (sound : m₀.Sound)
    (since : Unforgotten [] k hist) {n n' : Nat} {t t' : Thread K I α} (ht : m.threads[n]? = some t)
    (ht' : m.threads[n']? = some t') (inside : ∃ h ∈ t.sections, h.key = k) (inside' : ∃ h ∈ t'.sections, h.key = k) :
    n = n' := by
  obtain ⟨h, hh, hk⟩ := inside
  obtain ⟨h', hh', hk'⟩ := inside'
  have entry := (run.abreast h₀ since n t ht).inside h hh hk
  have entry' := (run.abreast h₀ since n' t' ht').inside h' hh' hk'
  have token : h.token = h'.token := Option.some.inj (entry.symm.trans entry')
  exact (run.sound sound).apart n n' t t' h.token ht ht' (Thread.token_mem_tokens hh)
    (token ▸ Thread.token_mem_tokens hh')

end Machine

end Entries

variable {K M : Type}

/-! ## what leads to forgetting a key -/

namespace Progress

/-- Whether a pull may drop the group that it has seen. -/
structure MayDrop (rules : Rules K M) (op : Operation K M) (g : Group K M) (now : Instant) : Prop where
  pulls : ∃ order, op = .pull order
  released : rules.release g now = .ok true
  nothing : g.unmarked = []

/-- The deeds of a pull in its section of `k` until the group is dropped. -/
def dropping (k : K) (g : Group K M) (now : Instant) : List (Deed K (Request.interface K M)) :=
  [.called (.group k) (.ok (some g)), .called .clock now, .called (.dropGroup k) (.ok ())]

/-- What a phase of a tolerant barrier tells of the deeds that may lead to forgetting the key. -/
def Drainage (rules : Rules K M) (op : Operation K M) (φ : Progress K M)
    (ds : List (Deed K (Request.interface K M))) : Prop :=
  match φ with
  | .refused _ _ => False
  | .saw _ _ => ∃ order, op = .pull order
  | .cleared _ g now => (∃ order, op = .pull order) ∧ rules.release g now = .ok true
  | .vacant h _ => ∃ g now, MayDrop rules op g now ∧ ds = dropping h.key g now
  | .forgetting h _ => ∃ g now, MayDrop rules op g now ∧ ds = dropping h.key g now ++ [.retired 0]
  | _ => True

variable [DecidableEq K] [BEq M] {rules : Rules K M} {op : Operation K M} {h : Held K} {es : List (Occurrence K M)}
  {φ : Progress K M}

theorem Path.drainage (path : Path rules .tolerant op h es φ) : φ.Drainage rules op (es.map (·.deed)) := by
  induction path with
  | entered => exact trivial
  | @on es φ e before allowed inside _ ih =>
    have trail := before.trail
    rw [List.map_append, List.map_singleton]
    generalize e.deed = d at allowed inside ⊢
    cases allowed with
    | @called _ c r hc =>
      rw [after_called]
      cases hc with
      | @add h' m =>
        show (afterAdd .tolerant h' r).Drainage rules op _
        rcases r with (err | text) | ⟨⟩ <;> exact trivial
      | @group h' order pulls =>
        show (afterGroup h' r).Drainage rules op _
        rcases r with f | (_ | g)
        · exact trivial
        · exact trivial
        · exact ⟨order, pulls⟩
      | lookUp => exact ih.elim
      | @clock h' g =>
        show (afterClock rules h' g r).Drainage rules op _
        unfold afterClock
        split
        · exact trivial
        · exact trivial
        · exact ⟨ih, ‹_›⟩
      | @mark h' g now m | @remove h' g now m =>
        show (afterHandOut h' m r).Drainage rules op _
        cases r <;> exact trivial
      | @dropGroup h' g now nothing =>
        show (afterDrop h' r).Drainage rules op _
        rcases r with f | ⟨⟩
        · exact trivial
        · obtain ⟨e₀, e₁, rfl, hd₀, hd₁⟩ := trail
          refine ⟨g, now, ⟨ih.1, ih.2, nothing⟩, ?_⟩
          rw [List.map_cons, List.map_cons, List.map_nil, hd₀, hd₁]
          rfl
      | @report h' event u fate =>
        show (afterReport .tolerant h' u fate).Drainage rules op _
        cases fate <;> exact trivial
      | @count u =>
        show (afterCount u).Drainage rules op _
        unfold afterCount
        split <;> exact trivial
      | announce => exact trivial
    | @closed h' u fate =>
      show (afterClose u).Drainage rules op _
      unfold afterClose
      split <;> exact trivial
    | retired =>
      obtain ⟨g, now, may, hes⟩ := ih
      exact ⟨g, now, may, congrArg (· ++ _) hes⟩
    | @forgot h' u =>
      show (afterForget h' u).Drainage rules op _
      unfold afterForget
      split <;> exact trivial
    | opened | looked | sought | declined | gaveBack => exact trivial

end Progress

/-! ## drains -/

namespace Barrier

/-- `e`, which happens after `hist`, is the last step of a drain of `k`: in a section of `k` its thread was shown a group
which the release rule let go and in which nothing was unmarked, has dropped the group without failure and retired the
token, and now removes the entry. -/
def Drains (b : Barrier K M) (k : K) (hist : List (Occurrence K M)) (e : Occurrence K M) : Prop :=
  e.deed = .forgot 0 true ∧ ∃ ds i g now,
    deedsOf e.thread hist = ds ++ [.opened ⟨k, i⟩, .called (.group k) (.ok (some g)), .called .clock now,
      .called (.dropGroup k) (.ok ()), .retired 0] ∧
    b.rules.release g now = .ok true ∧ g.unmarked = []

/-- In `hist` a drain of `k` has come to its end. -/
def Drained (b : Barrier K M) (k : K) (hist : List (Occurrence K M)) : Prop :=
  ∃ pre e post, hist = pre ++ e :: post ∧ b.Drains k pre e

theorem sound_toThreads [DecidableEq K] {b : Barrier K M} {policy : TokenPolicy} (fresh : b.table = .new policy) :
    b.toThreads.Sound := by
  rw [toThreads, fresh]
  exact Machine.sound_new policy b.shared

namespace Course

variable [DecidableEq K] [BEq M] {b : Barrier K M} {ops : List (Operation K M)} {hist : List (Occurrence K M)}
  {m : Threads K M} {k : K}

/-- On a tolerant table, what removes an entry is the last step of a drain. -/
theorem drains_of_unlinks (course : b.Course ops hist m) (tolerant : b.table.policy = .tolerant) {e : Occurrence K M}
    (occurs : b.Occurs ops hist e) (unlinks : Unlinks hist e k) :
    (∃ order, ops[e.thread]? = some (.pull order)) ∧ b.Drains k hist e := by
  obtain ⟨depth, s, hd, found, rfl⟩ := unlinks
  rw [course.stays] at found
  have hs : (b.progress e.thread hist).stay? = some s := Option.mem_toList.1 (List.mem_of_getElem? found)
  obtain ⟨r, hr, ht, ho⟩ := course.section_of_stay hs
  obtain ⟨op, hop, path, allowed⟩ := (course.sections_fit r hr).allowed occurs ht ho
  obtain ⟨here, ds, hds⟩ := (course.sections_fit r hr).underway ho
  rw [tolerant] at path
  obtain ⟨s', hs', held⟩ := path.stay
  have drainage := path.drainage
  rw [ht] at here hop hds
  rw [here, hs'] at hs
  cases hs
  rw [hd] at allowed
  generalize b.progressIn r = φ at allowed hs' drainage
  cases allowed with
  | @forgot h u =>
    cases hs'
    obtain ⟨g, now, ⟨⟨order, rfl⟩, released, nothing⟩, hes⟩ := drainage
    refine ⟨⟨order, hop⟩, hd, ds, h.token, g, now, ?_, released, nothing⟩
    rw [hds, Section.deeds, hes, ← held]
    rfl

/-- As long as a key is not drained, nobody removes its entry. -/
theorem unforgotten (course : b.Course ops hist m) (tolerant : b.table.policy = .tolerant)
    (whole : ¬ b.Drained k hist) : Unforgotten [] k hist := by
  rintro pre e post rfl unlinks
  obtain ⟨ops', m', course', -, occurs⟩ := course.at_point
  exact whole ⟨pre, e, post, rfl, (course'.drains_of_unlinks tolerant occurs unlinks).2⟩

theorem exclusive_until (course : b.Course ops hist m) (sound : b.toThreads.Sound) (since : Unforgotten [] k hist) :
    b.Exclusive k hist := by
  rintro pre ⟨rest, rfl⟩ n n' s s' hs hs' - - hk hk'
  obtain ⟨_, _, course'⟩ := course.of_prefix (List.prefix_append pre rest)
  have since' : Unforgotten [] k pre := by
    rintro p e q rfl
    exact since p e (q ++ rest) (by simp)
  obtain ⟨t, ht, hm⟩ := course'.reaches.thread_of_stay rfl (course'.mem_staysOf hs)
  obtain ⟨t', ht', hm'⟩ := course'.reaches.thread_of_stay rfl (course'.mem_staysOf hs')
  exact course'.reaches.alone rfl sound since' ht ht' ⟨_, hm, hk⟩ ⟨_, hm', hk'⟩

/-- As long as the entry of a key is not removed, the key has one whenever it has a group. -/
theorem tracked_until (course : b.Course ops hist m) (bare : ∀ k, b.shared.store.group k = none)
    (since : Unforgotten [] k hist) (hk : (m.data.store.group k).isSome) : (m.table.current k).isSome := by
  induction course with
  | here =>
    have hk : (b.shared.store.group k).isSome := hk
    rw [bare] at hk
    cases hk
  | start _ _ ih => exact ih since hk
  | @step ops hist m n env t d table data t' before thread op _ allowed step ih =>
    obtain ⟨earlier, stays⟩ := unforgotten_append.1 since
    have kept := before.reaches.entry_kept rfl thread step stays
    have entry : (m.table.current k).isSome := by
      by_cases hm : ∃ c r method, d = .called c r ∧ Request.method? c = some (method, k)
      · -- the call is made in a section of the key, which has its entry
        obtain ⟨c, r, method, rfl, hm⟩ := hm
        obtain ⟨h, hs, hkey⟩ := (Progress.allows_called.1 allowed).stay hm
        have inside := (before.reaches.abreast rfl earlier n t thread).inside h (before.mem_sections thread hs) hkey
        exact Option.isSome_of_eq_some inside
      · refine ih earlier ?_
        rcases step.call_or_not with ⟨c, rfl, rfl⟩ | ⟨-, rfl⟩
        · rw [← Shared.group_perform_of_ne fun method h => hm ⟨c, _, method, rfl, h⟩]
          exact hk
        · exact hk
    obtain ⟨i, hi⟩ := Option.isSome_iff_exists.1 entry
    exact Option.isSome_of_eq_some (kept i hi)

end Course

variable [DecidableEq K] [BEq M]

/-- **Tolerant tables are sound up to the first drain.** In every run of a tolerant barrier on a store of any capacity,
whatever calls on the store fail:

* a turn that removes a key from the lock table is the last step of a pull that drains the key;
* as long as a key was not drained, at most one thread is in a section of it, the key is in the table if it has a group,
  and what was added under it is, in order, what was taken out of its unmarked messages followed by what is still
  unmarked. -/
theorem sound_until_drained [ReflBEq M] (rules : Rules K M) (capacity : Nat) (turns : List (Turn K M)) :
    let b := Barrier.new rules .tolerant capacity
    let m := b.play turns
    let hist := b.chronicle turns
    (∀ turn k, k ∈ m.table.keys → k ∉ (b.play (turns ++ [turn])).table.keys → ∃ n env order,
      turn = .advance n env ∧ (operations turns)[n]? = some (.pull order) ∧
      b.chronicle (turns ++ [turn]) = hist ++ [⟨n, env, m.data, .forgot 0 true⟩] ∧
      b.Drains k hist ⟨n, env, m.data, .forgot 0 true⟩) ∧
    ∀ k, ¬ b.Drained k hist →
      (∀ (n n' : Nat) t t', m.threads[n]? = some t → m.threads[n']? = some t' → (∃ h ∈ t.sections, h.key = k) →
        (∃ h ∈ t'.sections, h.key = k) → n = n') ∧
      ((m.data.store.group k).isSome → k ∈ m.table.keys) ∧
      added k hist = taken k hist ++ m.data.store.unmarked k := by
  intro b m hist
  have course : b.Course (operations turns) hist m := b.course_play turns
  have sound : b.toThreads.Sound := sound_toThreads rfl
  refine ⟨fun turn k before after => ?_, fun k whole => ?_⟩
  · obtain ⟨i, entry⟩ := Option.isSome_iff_exists.1 (Assoc.get?_isSome.2 before)
    have gone : (b.play (turns ++ [turn])).table.current k ≠ some i := fun h =>
      after (Assoc.get?_isSome.1 (Option.isSome_of_eq_some h))
    rw [b.play_concat] at gone
    rw [b.chronicle_concat]
    rcases m.move_cases Shared.service (b.moveOf turn) with
      ⟨p, -, -, hm⟩ | ⟨n, env, t, d, table, data, t', hmove, ht, step, hh, hm⟩ | ⟨-, hm⟩
    · rw [hm] at gone
      exact absurd entry gone
    · rw [hm] at gone
      obtain ⟨depth, found, rfl, -⟩ := step.removes entry gone
      obtain ⟨op, hop⟩ := course.operation_of_thread ht
      have occurs := Course.occurs hop ((course.kept ht hop).step (course.sections_of_thread ht) step).1 step
      obtain ⟨⟨order, hpull⟩, drains⟩ := course.drains_of_unlinks rfl occurs
        ((course.reaches.unlinks_iff rfl ht).2 ⟨depth, _, rfl, found, rfl⟩)
      obtain ⟨rfl, -⟩ := Deed.forgot.inj drains.1
      refine ⟨n, env, order, ?_, hpull, ?_, drains⟩
      · cases turn <;> cases hmove
        rfl
      · exact congrArg (hist ++ Option.toList ·) hh
    · rw [hm] at gone
      exact absurd entry gone
  · have since := course.unforgotten rfl whole
    refine ⟨fun n n' t t' ht ht' => course.reaches.alone rfl sound since ht ht', fun hk => ?_, ?_⟩
    · exact Assoc.get?_isSome.1 (course.tracked_until (fun _ => rfl) since hk)
    · exact course.ledger_at (fun _ => rfl) (course.exclusive_until sound since)

/-- A message is accepted and handed out, and a second pull is about to remove the entry of its key. -/
theorem sound_until_drained_of_one_message :
    let rules : Rules Nat Nat := ⟨fun m => .ok (m % 2), .always, .mark⟩
    let turns : List (Turn Nat Nat) := [[.start (.accept 7), .start (.pull .asListed), .start (.pull .asListed)],
      List.replicate 6 (.advance 0 {}), List.replicate 9 (.advance 1 {}), List.replicate 7 (.advance 2 {})].flatten
    (1 ∈ ((Barrier.new rules .tolerant 0).play turns).table.keys ∧
      1 ∉ ((Barrier.new rules .tolerant 0).play (turns ++ [.advance 2 {}])).table.keys ∧
      ¬ (Barrier.new rules .tolerant 0).Drained 1 ((Barrier.new rules .tolerant 0).chronicle turns)) ∧
    (Barrier.new rules .tolerant 0).Drains 1 ((Barrier.new rules .tolerant 0).chronicle turns)
      ⟨2, {}, ((Barrier.new rules .tolerant 0).play turns).data, .forgot 0 true⟩ ∧
    added 1 ((Barrier.new rules .tolerant 0).chronicle turns) =
      taken 1 ((Barrier.new rules .tolerant 0).chronicle turns) ++
        ((Barrier.new rules .tolerant 0).play turns).data.store.unmarked 1 := by
  intro rules turns
  have before : 1 ∈ ((Barrier.new rules .tolerant 0).play turns).table.keys := by decide +kernel
  have after : 1 ∉ ((Barrier.new rules .tolerant 0).play (turns ++ [.advance 2 {}])).table.keys := by decide +kernel
  have kept : ((Barrier.new rules .tolerant 0).chronicle turns).all (fun e => !e.deed.removes) = true := by
    decide +kernel
  have whole : ¬ (Barrier.new rules .tolerant 0).Drained 1 ((Barrier.new rules .tolerant 0).chronicle turns) := by
    rintro ⟨pre, e, post, hh, hd, -⟩
    have last := List.all_eq_true.1 kept e (hh ▸ List.mem_append_right _ (List.mem_cons_self ..))
    rw [hd] at last
    cases last
  obtain ⟨removed, sound⟩ := sound_until_drained rules 0 turns
  obtain ⟨n, env, order, hturn, -, -, drains⟩ := removed (.advance 2 {}) 1 before after
  obtain ⟨rfl, rfl⟩ := Turn.advance.inj hturn
  exact ⟨⟨before, after, whole⟩, drains, (sound 1 whole).2.2⟩

end Barrier

end CorrelationBarrier
