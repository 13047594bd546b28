import CorrelationBarrier.Proofs.Tokens
import Mathlib.Data.List.Nodup

/-!
# Exclusion

Under a validated table at most one thread is inside a section of a key, unless the section has forgotten its key.

* `Stay` — an open section with the number of forgets begun and ended of it; `staysOf` reads the open sections of a thread
  off the history;
* `Stay.After` — what a deed leaves of the open sections, one rule for each way in which a section gets to be as it is;
* `Stay.Kept` — what a section may rely on: it has the current token until it forgets its key;
* `Machine.Reaches.kept`, `Machine.Reaches.stay_unique` — this holds in every state of every run.

The threads run any programs: sections inside each other, any number of forgets of one section, also from inside of another
one, bare fetches of tokens.
-/

namespace CorrelationBarrier

variable {K : Type} {I : Interface} {σ ε α : Type}

/-- An open section, with the forgets of its key so far. -/
structure Stay (K : Type) where
  held : Held K
  begun : Nat := 0
  ended : Nat := 0

/-- The open sections of a thread after a deed, from the innermost outwards. -/
def Deed.stays : Deed K I → List (Stay K) → List (Stay K)
  | .opened h, ss => { held := h } :: ss
  | .closed, ss => ss.tail
  | .retired depth, ss => ss.modify depth fun s => { s with begun := s.begun + 1 }
  | .forgot depth _, ss => ss.modify depth fun s => { s with ended := s.ended + 1 }
  | _, ss => ss

/-- The depth of the section whose key a deed is part of forgetting. -/
def Deed.forgets? : Deed K I → Option Nat
  | .retired depth | .forgot depth _ => some depth
  | _ => none

/-- `s` is open after the deed of a thread with the open sections `ss`: it has just been opened, a forget of it has just
begun or ended, or it was open before and the deed does not concern it. -/
inductive Stay.After (ss : List (Stay K)) : Deed K I → Stay K → Prop where
  | opened (h : Held K) : After ss (.opened h) { held := h }
  | began {depth s} (found : ss[depth]? = some s) : After ss (.retired depth) { s with begun := s.begun + 1 }
  | ended {depth removed s} (found : ss[depth]? = some s) :
    After ss (.forgot depth removed) { s with ended := s.ended + 1 }
  | kept {d s i} (found : ss[i]? = some s) (other : d.forgets? ≠ some i) : After ss d s

/-- What a list holds after one of its elements has changed. -/
theorem mem_modify {β : Type} {l : List β} {i : Nat} {f : β → β} {x : β} (h : x ∈ l.modify i f) :
    (∃ y, l[i]? = some y ∧ f y = x) ∨ ∃ j, j ≠ i ∧ l[j]? = some x := by
  obtain ⟨j, hj⟩ := List.mem_iff_getElem?.1 h
  by_cases same : j = i
  · subst same
    rw [List.getElem?_modify_eq] at hj
    exact .inl (Option.map_eq_some_iff.1 hj)
  · rw [List.getElem?_modify_ne f l (Ne.symm same)] at hj
    exact .inr ⟨j, same, hj⟩

theorem Deed.after_of_mem {d : Deed K I} {ss : List (Stay K)} {s : Stay K} (h : s ∈ d.stays ss) : s.After ss d := by
  have kept (mem : s ∈ ss) (calm : d.forgets? = none) : s.After ss d := by
    obtain ⟨i, found⟩ := List.mem_iff_getElem?.1 mem
    exact .kept found (by simp [calm])
  cases d with
  | opened =>
    rcases List.mem_cons.1 h with rfl | h
    · exact .opened _
    · exact kept h rfl
  | closed => exact kept (List.mem_of_mem_tail h) rfl
  | retired depth =>
    rcases mem_modify h with ⟨s₀, found, rfl⟩ | ⟨i, other, found⟩
    · exact .began found
    · exact .kept found fun same => other (Option.some.inj same).symm
  | forgot depth =>
    rcases mem_modify h with ⟨s₀, found, rfl⟩ | ⟨i, other, found⟩
    · exact .ended found
    · exact .kept found fun same => other (Option.some.inj same).symm
  | _ => exact kept h rfl

/-- A section that is open after a deed was opened by it, or was open before. -/
theorem Deed.held_of_stays {d : Deed K I} {ss : List (Stay K)} {s : Stay K} (h : s ∈ d.stays ss) :
    d = .opened s.held ∨ ∃ s₀ ∈ ss, s₀.held = s.held := by
  cases Deed.after_of_mem h with
  | opened => exact .inl rfl
  | began found | ended found => exact .inr ⟨_, List.mem_of_getElem? found, rfl⟩
  | kept found => exact .inr ⟨s, List.mem_of_getElem? found, rfl⟩

/-- Counting a forget changes neither the sections nor their order. -/
theorem held_modify {f : Stay K → Stay K} (same : ∀ s, (f s).held = s.held) (ss : List (Stay K)) (i : Nat) :
    (ss.modify i f).map (·.held) = ss.map (·.held) := by
  refine List.ext_getElem? fun j => ?_
  by_cases h : i = j
  · subst h
    rw [List.getElem?_map, List.getElem?_modify_eq, List.getElem?_map]
    cases ss[i]? with
    | none => rfl
    | some s => exact congrArg some (same s)
  · rw [List.getElem?_map, List.getElem?_modify_ne f ss h, List.getElem?_map]

/-- The sections of a thread stand where the history shows them. -/
theorem section_at {ss : List (Stay K)} {hs : List (Held K)} (h : ss.map (·.held) = hs) {i : Nat} {s : Stay K}
    (found : ss[i]? = some s) : hs[i]? = some s.held := by
  rw [← h, List.getElem?_map, found]
  rfl

/-- The open sections after a series of deeds. -/
def stays (ds : List (Deed K I)) : List (Stay K) := ds.foldl (fun ss d => d.stays ss) []

/-- The open sections of a thread, as the history shows them. -/
def staysOf (n : Nat) (hist : List (Happening K I ε σ)) : List (Stay K) := stays (deedsOf n hist)

theorem stays_append (ds : List (Deed K I)) (d : Deed K I) : stays (ds ++ [d]) = d.stays (stays ds) := by
  simp [stays]

theorem staysOf_append (n : Nat) (hist : List (Happening K I ε σ)) (e : Happening K I ε σ) :
    staysOf n (hist ++ [e]) = if e.thread = n then e.deed.stays (staysOf n hist) else staysOf n hist := by
  rw [staysOf, deedsOf_append, deedsOf_one]
  split
  · rw [stays_append]; rfl
  · rw [List.append_nil]; rfl

variable [DecidableEq K]

/-! ## the open sections of the machine -/

theorem Thread.Step.sections {service : Service I ε σ} {env : ε} {table table' : LockTable K} {data data' : σ}
    {t t' : Thread K I α} {d : Deed K I} (step : t.Step service env table data d table' data' t') {ss : List (Stay K)}
    (h : ss.map (·.held) = t.sections) : (d.stays ss).map (·.held) = t'.sections := by
  cases step with
  | opened => exact congrArg _ h
  | closed =>
    rw [Deed.stays, List.map_tail, h]
    rfl
  | closedNothing =>
    rw [Deed.stays, List.map_tail, h]
    rfl
  | retired | forgot | forgotNothing =>
    rw [Deed.stays, held_modify]
    · exact h
    · exact fun _ => rfl
  | _ => exact h

namespace Machine

variable {service : Service I ε σ} {m₀ m : Machine K I σ α} {hist : List (Happening K I ε σ)}

/-- The history shows the open sections of every thread. -/
theorem Reaches.sections (run : m₀.Reaches service hist m) (h₀ : m₀.threads = []) (n : Nat) :
    (staysOf n hist).map (·.held) = ((m.threads[n]?).map (·.sections)).getD [] := by
  induction run with
  | here => simp [staysOf, stays, deedsOf, h₀]
  | @start hist m p _ ih =>
    rw [ih]
    cases ht : m.threads[n]? with
    | some t => rw [threads_start.2 (.inl ht)]
    | none =>
      cases hx : (m.start p).threads[n]? with
      | none => rfl
      | some x =>
        rcases threads_start.1 hx with hx | ⟨-, rfl⟩
        · rw [ht] at hx
          cases hx
        · rfl
  | @step hist m i env t d table data t' _ thread step ih =>
    rw [staysOf_append]
    by_cases hi : i = n
    · subst hi
      rw [if_pos rfl, threads_after_self thread]
      exact step.sections (by rw [ih, thread]; rfl)
    · rw [if_neg hi, ih, threads_after_of_ne (Ne.symm hi)]

theorem Reaches.sections_of_thread (run : m₀.Reaches service hist m) (h₀ : m₀.threads = []) {n : Nat}
    {t : Thread K I α} (ht : m.threads[n]? = some t) : (staysOf n hist).map (·.held) = t.sections := by
  rw [run.sections h₀, ht]
  rfl

theorem Reaches.thread_of_stay (run : m₀.Reaches service hist m) (h₀ : m₀.threads = []) {n : Nat} {s : Stay K}
    (hs : s ∈ staysOf n hist) : ∃ t, m.threads[n]? = some t ∧ s.held ∈ t.sections := by
  have hm : s.held ∈ (staysOf n hist).map (·.held) := List.mem_map_of_mem hs
  rw [run.sections h₀] at hm
  cases ht : m.threads[n]? with
  | none => simp [ht] at hm
  | some t => exact ⟨t, rfl, by simpa [ht] using hm⟩

theorem Reaches.policy (run : m₀.Reaches service hist m) : m.table.policy = m₀.table.policy := by
  induction run with
  | here => rfl
  | start _ _ ih => exact ih
  | step _ _ step ih => exact step.evolves.policy.trans ih

end Machine

/-! ## what a section may rely on -/

/-- A section that has not begun to forget its key holds a token that is not retired, and one that has not ended
forgetting it holds the current token of its key. -/
structure Stay.Kept (table : LockTable K) (s : Stay K) : Prop where
  unretired : s.begun = 0 → (table.token s.held.token).retired = false
  current : s.ended = 0 → table.current s.held.key = some s.held.token

omit [DecidableEq K] in
/-- Sections with the same token are the same. -/
theorem section_unique {hs : List (Held K)} (nodup : (hs.map (·.token)).Nodup) {i j : Nat} {h h' : Held K}
    (hi : hs[i]? = some h) (hj : hs[j]? = some h') (same : h.token = h'.token) : i = j := by
  obtain ⟨lt, -⟩ := List.getElem?_eq_some_iff.1 hi
  refine (List.getElem?_inj (by simpa using lt) nodup).1 ?_
  rw [List.getElem?_map, List.getElem?_map, hi, hj]
  exact congrArg some same

section Step

variable {service : Service I ε σ} {env : ε} {table table' : LockTable K} {data data' : σ} {t t' : Thread K I α}
  {d : Deed K I}

/-- A step can take from no section what it relies on, except by forgetting its key. -/
theorem Stay.Kept.step {s : Stay K} (kept : s.Kept table)
    (step : t.Step service env table data d table' data' t')
    (other : ∀ depth, d.forgets? = some depth → ∀ h, t.sections[depth]? = some h → h.token ≠ s.held.token) :
    s.Kept table' := by
  cases step with
  | fetched | sought =>
    refine ⟨fun hb => ?_, fun he => LockTable.current_acquire_of_some (kept.current he)⟩
    rw [LockTable.token_acquire]
    exact kept.unretired hb
  | declined | opened =>
    refine ⟨fun hb => ?_, kept.current⟩
    rw [LockTable.retired_hold]
    exact kept.unretired hb
  | gaveBack | closed =>
    refine ⟨fun hb => ?_, kept.current⟩
    rw [LockTable.retired_release]
    exact kept.unretired hb
  | @retired depth next h hs found =>
    refine ⟨fun hb => ?_, kept.current⟩
    rw [LockTable.retired_retire_of_ne (other depth rfl h found)]
    exact kept.unretired hb
  | @forgot depth next h hs found =>
    refine ⟨fun hb => ?_, fun he => ?_⟩
    · rw [LockTable.token_unlink]
      exact kept.unretired hb
    · rw [LockTable.current_unlink, if_neg, kept.current he]
      rintro ⟨hc, hk⟩
      rw [hk, kept.current he] at hc
      exact other depth rfl h found (Option.some.inj hc).symm
  | _ => exact kept

/-- What the sections of a thread may rely on after its own step. -/
theorem Thread.Step.kept (step : t.Step service env table data d table' data' t') {ss : List (Stay K)}
    (hs : ss.map (·.held) = t.sections) (nodup : (t.sections.map (·.token)).Nodup)
    (kept : ∀ s ∈ ss, s.Kept table) (opened : ∀ h, d = .opened h → ({ held := h } : Stay K).Kept table') :
    ∀ s ∈ d.stays ss, s.Kept table' := by
  intro s mem
  cases Deed.after_of_mem mem with
  | opened h => exact opened h rfl
  | began found =>
    cases step with
    | retired => exact ⟨nofun, (kept _ (List.mem_of_getElem? found)).current⟩
  | ended found =>
    cases step with
    | forgot =>
      refine ⟨fun hb => ?_, nofun⟩
      rw [LockTable.token_unlink]
      exact (kept _ (List.mem_of_getElem? found)).unretired hb
    | forgotNothing missing => cases missing.symm.trans (section_at hs found)
  | @kept _ _ i found other =>
    -- the section whose key is forgotten has another token
    refine (kept s (List.mem_of_getElem? found)).step step fun depth forgets h there same => other ?_
    rw [forgets, section_unique nodup there (section_at hs found) same]

end Step

namespace Machine

variable {service : Service I ε σ} {m₀ m : Machine K I σ α} {hist : List (Happening K I ε σ)}

/-- A section is entered with the current token of its key, if the table is validated. -/
theorem Sound.opened_kept {env : ε} {i : Nat} {t t' : Thread K I α} {table : LockTable K} {data : σ} {h : Held K}
    (sound : m.Sound) (ht : m.threads[i]? = some t) (validated : m.table.policy = .validated)
    (step : t.Step service env m.table m.data (.opened h) table data t') :
    ({ held := h } : Stay K).Kept table := by
  cases step with
  | @opened k next j hs free fresh =>
    have unretired := LockTable.rejects_eq_false_iff.1 fresh validated
    obtain ⟨made, entry⟩ := (sound.fits i _ ht).wants j rfl
    refine ⟨fun _ => by rw [LockTable.retired_hold]; exact unretired, fun _ => ?_⟩
    obtain ⟨k', hk'⟩ := sound.listed j made unretired
    rw [LockTable.current_hold, ← entry k next rfl k' hk']
    exact hk'

/-- In a run on a validated table every section can rely on its token until it forgets its key. -/
theorem Reaches.kept (run : m₀.Reaches service hist m) (h₀ : m₀.threads = []) (sound : m₀.Sound)
    (validated : m₀.table.policy = .validated) : ∀ n, ∀ s ∈ staysOf n hist, s.Kept m.table := by
  induction run with
  | here => simp [staysOf, stays, deedsOf]
  | start p _ ih => exact ih
  | @step hist m i env t d table data t' run thread step ih =>
    intro n s hs
    have hsound := run.sound sound
    have hsections := run.sections_of_thread h₀ thread
    rw [staysOf_append] at hs
    by_cases hi : i = n
    · subst hi
      rw [if_pos rfl] at hs
      refine step.kept hsections (hsound.fits i t thread).nodup_sections (ih i) ?_ s hs
      rintro h rfl
      exact hsound.opened_kept thread (run.policy.trans validated) step
    · rw [if_neg hi] at hs
      refine (ih n s hs).step step fun depth _ h found he => hi ?_
      obtain ⟨x, hx, hm⟩ := run.thread_of_stay h₀ hs
      have hm' := Thread.token_mem_tokens (List.mem_of_getElem? found)
      exact hsound.apart i n t x h.token thread hx hm' (he ▸ Thread.token_mem_tokens hm)

/-- Two sections of one key that have not ended forgetting it are the same. -/
theorem Reaches.stay_unique (run : m₀.Reaches service hist m) (h₀ : m₀.threads = []) (sound : m₀.Sound)
    (validated : m₀.table.policy = .validated) {n n' : Nat} {s s' : Stay K} (hs : s ∈ staysOf n hist)
    (hs' : s' ∈ staysOf n' hist) (he : s.ended = 0) (he' : s'.ended = 0) (hk : s.held.key = s'.held.key) :
    n = n' ∧ s = s' := by
  have kept := run.kept h₀ sound validated
  have token : s.held.token = s'.held.token := by
    have h := (kept n s hs).current he
    rw [hk, (kept n' s' hs').current he'] at h
    exact (Option.some.inj h).symm
  obtain ⟨t, ht, hm⟩ := run.thread_of_stay h₀ hs
  obtain ⟨t', ht', hm'⟩ := run.thread_of_stay h₀ hs'
  have hn : n = n' := (run.sound sound).apart n n' t t' _ ht ht' (Thread.token_mem_tokens hm)
    (token ▸ Thread.token_mem_tokens hm')
  subst hn
  refine ⟨rfl, ?_⟩
  have nodup := ((run.sound sound).fits n t ht).nodup_sections
  rw [← run.sections_of_thread h₀ ht, List.map_map] at nodup
  exact List.inj_on_of_nodup_map nodup hs hs' token

/-- Of a section no more forgets end than begin, and while one is under way it has not ended. -/
theorem Reaches.ended_le_begun (run : m₀.Reaches service hist m) (h₀ : m₀.threads = []) {n : Nat} :
    (∀ s ∈ staysOf n hist, s.ended ≤ s.begun) ∧
    ∀ t depth next, m.threads[n]? = some t → t.stage = .retiring → t.program = .forget depth next →
      ∀ s, (staysOf n hist)[depth]? = some s → s.ended < s.begun := by
  induction run with
  | here => simp [staysOf, stays, deedsOf]
  | start p run ih =>
    refine ⟨ih.1, fun t depth next ht hs => ?_⟩
    rcases threads_start.1 ht with ht | ⟨-, rfl⟩
    · exact ih.2 t depth next ht hs
    · cases hs
  | @step hist m i env t d table data t' run thread step ih =>
    have hsections := run.sections_of_thread h₀ thread
    rw [staysOf_append]
    by_cases hi : i = n
    · subst hi
      obtain ⟨le, lt⟩ := ih
      rw [if_pos rfl]
      constructor
      · intro s mem
        cases Deed.after_of_mem mem with
        | opened => exact Nat.le_refl _
        | began found => exact Nat.le_succ_of_le (le _ (List.mem_of_getElem? found))
        | ended found =>
          cases step with
          | forgot => exact lt _ _ _ thread rfl rfl _ found
          | forgotNothing missing => cases missing.symm.trans (section_at hsections found)
        | kept found => exact le s (List.mem_of_getElem? found)
      · intro x depth next hx stage program s found
        rw [threads_after_self thread] at hx
        cases hx
        cases step with
        | retired =>
          cases program
          change ((staysOf i hist).modify depth _)[depth]? = some s at found
          rw [List.getElem?_modify_eq] at found
          obtain ⟨s₀, before, rfl⟩ := Option.map_eq_some_iff.1 found
          exact Nat.lt_succ_of_le (le s₀ (List.mem_of_getElem? before))
        | _ => cases stage
    · rw [if_neg hi, threads_after_of_ne (Ne.symm hi)]
      exact ih

/-- The token of a section that has begun to forget its key is retired. -/
theorem Reaches.retired_of_begun (run : m₀.Reaches service hist m) (h₀ : m₀.threads = []) (sound : m₀.Sound) {n : Nat} :
    ∀ s ∈ staysOf n hist, s.begun ≠ 0 → (m.table.token s.held.token).retired = true := by
  induction run with
  | here => simp [staysOf, stays, deedsOf]
  | start p _ ih => exact ih
  | @step hist m i env t d table data t' run thread step ih =>
    have old : ∀ s ∈ staysOf n hist, s.begun ≠ 0 → (table.token s.held.token).retired = true :=
      fun s hs hb => step.evolves.retired _ (ih s hs hb)
    rw [staysOf_append]
    by_cases hi : i = n
    · subst hi
      have hsections := run.sections_of_thread h₀ thread
      have fits := (run.sound sound).fits i t thread
      rw [if_pos rfl]
      intro s mem hb
      cases Deed.after_of_mem mem with
      | opened => exact absurd rfl hb
      | @began depth s₀ found =>
        cases step with
        | retired there =>
          cases there.symm.trans (section_at hsections found)
          exact LockTable.retired_retire_self (fits.holds _ (Thread.token_mem_tokens (List.mem_of_getElem? there))).1
      | @ended _ _ s₀ found => exact old s₀ (List.mem_of_getElem? found) hb
      | kept found => exact old s (List.mem_of_getElem? found) hb
    · rw [if_neg hi]
      exact old

/-- A section that asks before it begins to forget is told that its token is current. -/
theorem Reaches.asked_of_whole (run : m₀.Reaches service hist m) (h₀ : m₀.threads = []) (sound : m₀.Sound)
    (validated : m₀.table.policy = .validated) {n : Nat} {pre post : List (Deed K I)} {b : Bool}
    {depth : Nat} (split : deedsOf n hist = pre ++ .asked depth b :: post) {s : Stay K} (hs : (stays pre)[depth]? = some s)
    (hb : s.begun = 0) : b = true := by
  induction run generalizing post with
  | here => simp [deedsOf] at split
  | start p _ ih => exact ih split
  | @step hist m i env t d table data t' run thread step ih =>
    rw [deedsOf_append, deedsOf_one] at split
    by_cases hi : i = n
    · subst hi
      rw [if_pos rfl] at split
      rcases List.eq_nil_or_concat post with rfl | ⟨post, d', rfl⟩
      · obtain ⟨hpre, hd⟩ := List.append_inj' split rfl
        have hsections := run.sections_of_thread h₀ thread
        subst hpre
        have hkept := run.kept h₀ sound validated i s (List.mem_of_getElem? hs)
        have there := section_at hsections hs
        cases hd
        cases step with
        | asked found =>
          cases found.symm.trans there
          rw [hkept.unretired hb]
          rfl
        | askedNothing missing => cases missing.symm.trans there
      · have hcut : deedsOf i hist ++ [d] = (pre ++ .asked depth b :: post) ++ [d'] := by
          rw [split]
          simp
        exact ih (List.append_inj_left' hcut rfl)
    · rw [if_neg hi, List.append_nil] at split
      exact ih split

/-- **Exclusion by key.** In every state of every run on a fresh validated table, whatever its threads run: the open
sections are those of the history; of the sections of one key at most one, in one thread, has not begun to forget the key,
be it from inside of other sections; it holds the current token of the key, which is not retired; and who asks about a
section before that begins to be forgotten is told that its token is current, which is what every section finds when it
starts. -/
theorem exclusion_by_key (service : Service I ε σ) (data : σ) (moves : List (Move K I ε α)) :
    let start : Machine K I σ α := { table := .new .validated, data := data }
    let m := start.run service moves
    let hist := start.history service moves
    (∀ n, (staysOf n hist).map (·.held) = ((m.threads[n]?).map (·.sections)).getD []) ∧
    (∀ n n' s s', s ∈ staysOf n hist → s' ∈ staysOf n' hist → s.begun = 0 → s'.begun = 0 →
      s.held.key = s'.held.key → n = n' ∧ s = s') ∧
    (∀ n, ∀ s ∈ staysOf n hist, s.begun = 0 → m.table.current s.held.key = some s.held.token ∧
      (m.table.token s.held.token).retired = false ∧ (m.table.token s.held.token).held = true) ∧
    (∀ n pre depth b post, deedsOf n hist = pre ++ .asked depth b :: post → ∀ s, (stays pre)[depth]? = some s →
      s.begun = 0 → b = true) := by
  intro start m hist
  have run : start.Reaches service hist m := reaches_run service moves start
  have sound : start.Sound := sound_new .validated data
  have ended {n : Nat} {s : Stay K} (hs : s ∈ staysOf n hist) (hb : s.begun = 0) : s.ended = 0 :=
    Nat.le_zero.1 (hb ▸ (run.ended_le_begun rfl).1 s hs)
  refine ⟨run.sections rfl, ?_, ?_, ?_⟩
  · intro n n' s s' hs hs' hb hb' hk
    exact run.stay_unique rfl sound rfl hs hs' (ended hs hb) (ended hs' hb') hk
  · intro n s hs hb
    have kept := run.kept rfl sound rfl n s hs
    obtain ⟨t, ht, hm⟩ := run.thread_of_stay rfl hs
    exact ⟨kept.current (ended hs hb), kept.unretired hb,
      (((run.sound sound).fits n t ht).holds _ (Thread.token_mem_tokens hm)).2⟩
  · intro n pre depth b post split s hs hb
    exact run.asked_of_whole rfl sound rfl split hs hb

/-- The key of a section is forgotten from inside of another one, which keeps its own. -/
example :
    let silent : Service ⟨Unit, fun _ => Unit⟩ Unit Unit := fun _ _ _ => ((), ())
    let moves : List (Move Nat ⟨Unit, fun _ => Unit⟩ Unit Bool) :=
      .start (.within 0 (.within 1 (.forget 1 .done))) :: List.replicate 6 (.advance 0 ())
    staysOf 0 (Machine.history silent moves { table := .new .validated, data := () }) =
      [{ held := ⟨1, 1⟩ }, { held := ⟨0, 0⟩, begun := 1, ended := 1 }] := by cbv

end Machine

end CorrelationBarrier
