import CorrelationBarrier.Proofs.Locks

/-!
# A thread on its own

`Program.run` says what a program comes to when nobody else is around. It is what a machine comes to in which one thread
moves and no other does, if nobody is busy with the table.

* `LockTable.Idle` — nobody is busy with a table: no entry of it is held, and none is retired;
* `Thread.Alone` — what holds of a table and the only thread that is busy with it, and stays so in its steps;
* `Machine.Leads` — some steps of one thread lead from one state to another;
* `Machine.leads_run` — a thread on its own comes to the end of its program as `Program.run` says, unless it comes to wait
  for a token that it holds itself;
* `Machine.runs_alone` — a flat program never waits for itself, and leaves the table idle behind it;
* `Machine.Orderly.idle` — so does a machine all of whose threads have run flat programs to their ends.
-/

namespace CorrelationBarrier

variable {K : Type} {I : Interface} {σ ε α : Type} [DecidableEq K]

/-- Nobody is busy with the table: every entry is a token of its own, which is made, and neither held nor retired. -/
structure LockTable.Idle (t : LockTable K) : Prop where
  made : ∀ k i, t.current k = some i → i < t.tokens.length
  distinct : ∀ k j i, t.current k = some i → t.current j = some i → k = j
  free : ∀ k i, t.current k = some i → (t.token i).held = false
  unretired : ∀ k i, t.current k = some i → (t.token i).retired = false

/-! ## the only thread that is busy -/

namespace Thread

/-- What holds of a table and the only thread that is busy with it. -/
structure Alone (table : LockTable K) (t : Thread K I α) : Prop where
  fits : t.Fits table
  made : ∀ k i, table.current k = some i → i < table.tokens.length
  distinct : ∀ k j i, table.current k = some i → table.current j = some i → k = j
  /-- An entry that is held is held by the thread. -/
  held : ∀ k i, table.current k = some i → (table.token i).held = true → i ∈ t.tokens
  /-- An entry that is retired is just being forgotten by the thread. -/
  retired : ∀ k i, table.current k = some i → (table.token i).retired = true → t.ending? = some ⟨k, i⟩

theorem alone_start {table : LockTable K} (idle : table.Idle) (p : Program K I α) : Alone table { program := p } where
  fits := ⟨by simp [tokens], by simp [tokens], by simp, nofun, nofun⟩
  made := idle.made
  distinct := idle.distinct
  held k i entry held := by
    rw [idle.free k i entry] at held
    cases held
  retired k i entry retired := by
    rw [idle.unretired k i entry] at retired
    cases retired

/-- A thread without sections that is not in the midst of something is not busy. -/
theorem Alone.idle {table : LockTable K} {p : Program K I α} (alone : Alone table ⟨p, .ready, []⟩) : table.Idle where
  made := alone.made
  distinct := alone.distinct
  free k i entry := Bool.eq_false_iff.2 fun held => by cases alone.held k i entry held
  unretired k i entry := Bool.eq_false_iff.2 fun retired => by cases alone.retired k i entry retired

variable {service : Service I ε σ} {env : ε} {table table' : LockTable K} {data data' : σ} {t t' : Thread K I α}
  {d : Deed K I}

/-- An entry that is retired after a step of the only thread is one that the thread is just forgetting. -/
theorem Alone.step_retired (alone : t.Alone table) (step : t.Step service env table data d table' data' t') :
    ∀ k i, table'.current k = some i → (table'.token i).retired = true → t'.ending? = some ⟨k, i⟩ := by
  intro k i entry retired
  cases step with
  | fetched | sought =>
    rw [LockTable.token_acquire] at retired
    rcases LockTable.current_acquire_cases entry with before | ⟨-, rfl, -⟩
    · cases alone.retired k i before retired
    · rw [LockTable.token_of_unmade (Nat.le_refl _)] at retired
      cases retired
  | declined | opened | gaveBack | closed =>
    cases alone.retired k i (by simpa using entry) (by simpa using retired)
  | @retired depth next h hs found =>
    by_cases hi : h.token = i
    · have hkey : k = h.key := alone.fits.keyed h (List.mem_of_getElem? found) k (hi ▸ entry)
      subst hi hkey
      exact found
    · rw [LockTable.retired_retire_of_ne hi] at retired
      cases alone.retired k i entry retired
  | @forgot depth next h hs found =>
    -- what the thread was forgetting is no entry any more
    rw [LockTable.token_unlink] at retired
    have before := LockTable.current_of_unlink entry
    obtain rfl : h = ⟨k, i⟩ := Option.some.inj (found.symm.trans (alone.retired k i before retired))
    exact (LockTable.current_unlink_ne _ _ _ entry).elim
  | _ => cases alone.retired k i entry retired

/-- The only thread that is busy stays the only one when it makes a step. -/
theorem Alone.step (alone : t.Alone table) (step : t.Step service env table data d table' data' t') :
    t'.Alone table' where
  fits := step.fits alone.fits alone.made (step.entries_distinct alone.made alone.distinct)
  made := step.entries_made alone.made
  distinct := step.entries_distinct alone.made alone.distinct
  held k i entry held := by
    rcases step.held_cases held with mem | ⟨before, out⟩
    · exact mem
    · rcases step.evolves.entries k i entry with entry | fresh
      · exact absurd (alone.held k i entry before) out
      · rw [LockTable.token_of_unmade fresh] at before
        cases before
  retired := alone.step_retired step

/-- An entry that the only thread has fetched and cannot take is one that it holds itself, in a section of the same
key. -/
theorem Alone.holds_itself {k : K} {next : Program K I α} {i : TokenId} {hs : List (Held K)}
    (alone : Alone table ⟨.enter k next, .fetched i, hs⟩) (entry : table.current k = some i)
    (held : (table.token i).held = true) : ⟨k, i⟩ ∈ hs := by
  obtain ⟨h, mem, rfl⟩ := List.mem_map.1 (alone.held k i entry held)
  obtain rfl : k = h.key := alone.fits.keyed h mem k entry
  exact mem

end Thread

/-! ## the steps of one thread -/

namespace Machine

/-- Some steps of the thread `n`, and of no other, lead from `m` to `m'`. -/
def Leads (service : Service I ε σ) (env : ε) (n : Nat) (m m' : Machine K I σ α) : Prop :=
  ∃ steps, m.run service (List.replicate steps (.advance n env)) = m'

/-- The thread `n` waits for the token of a section that it has open itself. -/
def WaitsForItself (n : Nat) (m : Machine K I σ α) : Prop :=
  ∃ k next i hs, m.threads[n]? = some ⟨.enter k next, .fetched i, hs⟩ ∧ ⟨k, i⟩ ∈ hs ∧ (m.table.token i).held = true

variable {service : Service I ε σ} {env : ε} {n : Nat} {m m' : Machine K I σ α} {table table' : LockTable K}
  {data data' : σ} {t t' : Thread K I α} {d : Deed K I}

theorem Leads.refl (m : Machine K I σ α) : m.Leads service env n m := ⟨0, rfl⟩

/-- A step of the thread before others of its steps. -/
theorem Leads.cons (hn : n < m.threads.length) (step : t.Step service env table data d table' data' t')
    (leads : (m.after n table' data' t').Leads service env n m') :
    (m.after n table data t).Leads service env n m' := by
  obtain ⟨steps, reached⟩ := leads
  refine ⟨steps + 1, ?_⟩
  have moved : (m.after n table data t).move service (.advance n env) = m.after n table' data' t' := by
    simp [move, advance?, after, hn, step.step?_eq]
  rw [List.replicate_succ]
  show ((m.after n table data t).move service (.advance n env)).run service _ = m'
  rw [moved]
  exact reached

/-- A thread that runs a flat program does so however often it moves. -/
theorem Leads.level (leads : m.Leads service env n m') (ht : m.threads[n]? = some t) {b : Bool} (level : t.Level b) :
    ∃ t' b', m'.threads[n]? = some t' ∧ t'.Level b' := by
  obtain ⟨steps, rfl⟩ := leads
  induction steps generalizing m t b with
  | zero => exact ⟨t, b, ht, level⟩
  | succ steps ih =>
    rw [List.replicate_succ]
    show ∃ t' b', ((m.move service (.advance n env)).run service _).threads[n]? = some t' ∧ t'.Level b'
    rcases m.move_cases service (.advance n env) with
      ⟨p, hp, -⟩ | ⟨i, env', x, d, table, data, x', same, hx, step, -, moved⟩ | ⟨-, moved⟩
    · cases hp
    · cases same
      rw [ht] at hx
      cases hx
      exact ih (moved ▸ threads_after_self ht) (level.step step)
    · exact ih (moved.symm ▸ ht) level

/-- **A thread on its own.** A thread that nobody else disturbs comes to the end of its program as `Program.run` says, with
the same answer, table and data, or else to a section of a key that it is inside of already, where it waits for itself. -/
theorem leads_run (service : Service I ε σ) (env : ε) (m : Machine K I σ α) {n : Nat} (hn : n < m.threads.length)
    (p : Program K I α) (s : Solo K σ) (alone : Thread.Alone s.table ⟨p, .ready, s.sections⟩) :
    let r := p.run service env s
    ∃ m', (m.after n s.table s.data ⟨p, .ready, s.sections⟩).Leads service env n m' ∧
      (m'.WaitsForItself n ∨ m' = m.after n r.2.table r.2.data ⟨.done r.1, .ready, r.2.sections⟩ ∧
        Thread.Alone r.2.table (⟨.done r.1, .ready, r.2.sections⟩ : Thread K I α)) := by
  induction p generalizing s with
  | done a => exact ⟨_, .refl _, .inr ⟨rfl, alone⟩⟩
  | acquire k next ih =>
    have step : Thread.Step service env s.table s.data ⟨.acquire k next, .ready, s.sections⟩ _ _ _ _ := .fetched
    obtain ⟨m', leads, ends⟩ := ih _ { s with table := _ } (alone.step step)
    exact ⟨m', leads.cons hn step, ends⟩
  | look next ih =>
    have step : Thread.Step service env s.table s.data ⟨.look next, .ready, s.sections⟩ _ _ _ _ := .looked
    obtain ⟨m', leads, ends⟩ := ih _ s (alone.step step)
    exact ⟨m', leads.cons hn step, ends⟩
  | enter k next ih =>
    have seek : Thread.Step service env s.table s.data ⟨.enter k next, .ready, s.sections⟩ _ _ _ _ := .sought
    have seeking := alone.step seek
    have entry := LockTable.current_acquire s.table k
    by_cases held : ((s.table.acquire k).2.token (s.table.acquire k).1).held = true
    · have waits : WaitsForItself n (m.after n (s.table.acquire k).2 s.data
          ⟨.enter k next, .fetched (s.table.acquire k).1, s.sections⟩) :=
        ⟨k, next, _, s.sections, by simp [after, hn], seeking.holds_itself entry held, held⟩
      exact ⟨_, .cons hn seek (.refl _), .inl waits⟩
    · have fresh : (s.table.acquire k).2.rejects (s.table.acquire k).1 = false := by
        refine LockTable.rejects_eq_false_iff.2 fun _ => Bool.eq_false_iff.2 fun retired => ?_
        cases seeking.retired k _ entry retired
      have step : Thread.Step service env (s.table.acquire k).2 s.data
        ⟨.enter k next, .fetched (s.table.acquire k).1, s.sections⟩ _ _ _ _ := .opened (Bool.eq_false_iff.2 held) fresh
      obtain ⟨m', leads, ends⟩ := ih ⟨_, _, _⟩ (seeking.step step)
      exact ⟨m', (leads.cons hn step).cons hn seek, ends⟩
  | leave next ih =>
    obtain ⟨table, hs, data⟩ := s
    cases hs with
    | nil =>
      have step : Thread.Step service env table data ⟨.leave next, .ready, []⟩ _ _ _ _ := .closedNothing
      obtain ⟨m', leads, ends⟩ := ih ⟨_, _, _⟩ (alone.step step)
      exact ⟨m', leads.cons hn step, ends⟩
    | cons h hs =>
      have step : Thread.Step service env table data ⟨.leave next, .ready, h :: hs⟩ _ _ _ _ := .closed
      obtain ⟨m', leads, ends⟩ := ih ⟨_, _, _⟩ (alone.step step)
      exact ⟨m', leads.cons hn step, ends⟩
  | forget depth next ih =>
    simp only [Program.run]
    split
    · rename_i missing
      have step : Thread.Step service env s.table s.data ⟨.forget depth next, .ready, s.sections⟩ _ _ _ _ :=
        .forgotNothing missing
      obtain ⟨m', leads, ends⟩ := ih _ s (alone.step step)
      exact ⟨m', leads.cons hn step, ends⟩
    · rename_i h found
      have retire : Thread.Step service env s.table s.data ⟨.forget depth next, .ready, s.sections⟩ _ _ _ _ :=
        .retired found
      have step : Thread.Step service env (s.table.retire h.token) s.data ⟨.forget depth next, .retiring, s.sections⟩
        _ _ _ _ := .forgot found
      obtain ⟨m', leads, ends⟩ := ih _ ⟨_, _, _⟩ ((alone.step retire).step step)
      exact ⟨m', (leads.cons hn step).cons hn retire, ends⟩
  | isCurrent depth next ih =>
    simp only [Program.run]
    split
    · rename_i missing
      have step : Thread.Step service env s.table s.data ⟨.isCurrent depth next, .ready, s.sections⟩ _ _ _ _ :=
        .askedNothing missing
      obtain ⟨m', leads, ends⟩ := ih _ s (alone.step step)
      exact ⟨m', leads.cons hn step, ends⟩
    · rename_i h found
      have step : Thread.Step service env s.table s.data ⟨.isCurrent depth next, .ready, s.sections⟩ _ _ _ _ :=
        .asked found
      obtain ⟨m', leads, ends⟩ := ih _ s (alone.step step)
      exact ⟨m', leads.cons hn step, ends⟩
  | call c next ih =>
    have step : Thread.Step service env s.table s.data ⟨.call c next, .ready, s.sections⟩ _ _ _ _ := .called
    obtain ⟨m', leads, ends⟩ := ih _ { s with data := (service env c s.data).2 } (alone.step step)
    exact ⟨m', leads.cons hn step, ends⟩

/-- **Flat programs on their own.** While nobody is busy with the table, a thread that runs a flat program and is the only
one to move comes to the end of it, with the answer, the table and the data that `Program.run` says, and without a section
open. Then nobody is busy with the table again. -/
theorem runs_alone (service : Service I ε σ) (env : ε) (m : Machine K I σ α) (idle : m.table.Idle) {p : Program K I α}
    (flat : p.Flat false) :
    let r := p.run service env { table := m.table, data := m.data }
    (∃ steps, (m.start p).run service (List.replicate steps (.advance m.threads.length env)) =
      { table := r.2.table, data := r.2.data, threads := m.threads ++ [{ program := .done r.1 }] }) ∧
    r.2.table.Idle := by
  have begun (table : LockTable K) (data : σ) (t : Thread K I α) :
      (m.start p).after m.threads.length table data t = ⟨table, data, m.threads ++ [t]⟩ := by
    simp [start, after]
  have thread : (m.start p).threads[m.threads.length]? = some { program := p } := by simp [start]
  have reached := leads_run service env (m.start p) (n := m.threads.length) (by simp [start]) p
    { table := m.table, data := m.data } (Thread.alone_start idle p)
  dsimp only at reached ⊢
  generalize p.run service env { table := m.table, data := m.data } = r at reached ⊢
  obtain ⟨a, table, hs, data⟩ := r
  obtain ⟨m', leads, ends⟩ := reached
  rw [begun] at leads ends
  obtain ⟨t, b, ht, level⟩ := Leads.level leads thread (Thread.level_start flat false)
  rcases ends with ⟨k, next, i, hs, ht', inside, -⟩ | ⟨rfl, alone⟩
  · -- who is on the way into a section has no other one open
    rw [ht] at ht'
    cases ht'
    obtain rfl : hs = [] := level.no_sections (.inl rfl)
    cases inside
  · obtain rfl : t = ⟨.done a, .ready, hs⟩ := by simpa using ht.symm
    obtain rfl : hs = [] := by simpa [Program.Flat] using level.flat
    exact ⟨leads, alone.idle⟩

/-- Nobody is busy with the table once all threads have run flat programs to their ends. -/
theorem Orderly.idle {m : Machine K I σ α} {hist : List (Happening K I ε σ)} (orderly : m.Orderly hist)
    (quiet : ∀ t ∈ m.threads, t.answer?.isSome) : m.table.Idle where
  made := orderly.sound.made
  distinct := orderly.sound.distinct
  free k i _ := Bool.eq_false_iff.2 fun held => by
    obtain ⟨n, t, ht, mem⟩ := orderly.holders i held
    obtain ⟨a, answered⟩ := Option.isSome_iff_exists.1 (quiet t (List.mem_of_getElem? ht))
    rw [(orderly.level n t ht).tokens_of_answer answered] at mem
    cases mem
  unretired k i entry := Bool.eq_false_iff.2 fun retired => by
    obtain ⟨n, ⟨p, stage, hs⟩, ht, ending⟩ := orderly.sound.ending k i entry retired
    have answered := quiet _ (List.mem_of_getElem? ht)
    cases p with
    | done => cases stage <;> cases ending
    | _ => cases answered

end Machine

end CorrelationBarrier
