import CorrelationBarrier.Proofs.Tokens

/-!
# Waiting

Beside the tokens there are two locks: that of the table and that of the shared data. A `Guarded` machine takes three steps
for an access that needs a lock: to take it, to make the access, and to let go of it. So a thread waits for a token, as in
`Machine`, or for a lock.

* `Guarded.advance?`, `Guarded.run` — the steps, and `Guarded.accesses` — those of them that the machine below makes;
  `Guarded.machine_run` shows that there are no others;
* `Program.Flat` — a program whose sections are not inside each other, and are left;
* `Deed.inside` — whether a thread is inside of a section, or on the way into one, as its deeds show it;
* `Thread.Level`, `Machine.Orderly`, `Guarded.Orderly` — what holds of a thread, a machine and its locks as long as all
  threads run flat programs;
* `Guarded.Orderly.progress` — some thread can make a step, unless all have ended.

The order of the locks is: a token first, then the table or the data. Who waits for a token holds nothing, and who holds a
token waits for a lock at most, which is let go of without waiting for anything.
-/

namespace CorrelationBarrier

variable {K : Type} {I : Interface} {σ ε α : Type}

/-- The locks beside the tokens. -/
inductive Lock where
  | table | data
  deriving DecidableEq

/-- What a thread has to do with the locks. -/
inductive Grip where
  /-- It holds none. -/
  | free
  /-- It has taken one and is about to make its access. -/
  | taken (l : Lock)
  /-- It has made its access and is about to let go of the lock. -/
  | used (l : Lock)
  deriving DecidableEq

/-- The lock that a thread holds. -/
def Grip.lock? : Grip → Option Lock
  | .free => none
  | .taken l | .used l => some l

/-- The lock that a thread needs for its next step; `guarded` says which calls need that of the data. -/
def Thread.lock? (guarded : I.Call → Bool) (t : Thread K I α) : Option Lock :=
  match t.stage, t.program with
  | .ready, .acquire _ _ | .ready, .look _ | .ready, .enter _ _ | .retiring, .forget _ _ => some .table
  | .ready, .call c _ => if guarded c then some .data else none
  | _, _ => none

/-- A machine with the locks of its table and its data. -/
structure Guarded (K : Type) (I : Interface) (σ α : Type) where
  machine : Machine K I σ α
  /-- What each of the threads has to do with the locks. -/
  grips : List Grip := []

namespace Guarded

/-- Whether no thread holds a lock. -/
def isFree (l : Lock) (g : Guarded K I σ α) : Bool := g.grips.all fun x => decide (x.lock? ≠ some l)

def setGrip (i : Nat) (x : Grip) (g : Guarded K I σ α) : Guarded K I σ α := { g with grips := g.grips.set i x }

/-- The lock that one of the threads needs for its next step. -/
def lock? (guarded : I.Call → Bool) (i : Nat) (g : Guarded K I σ α) : Option Lock :=
  g.machine.threads[i]?.bind (·.lock? guarded)

variable [DecidableEq K]

/-- One step of one thread, if it can move. -/
def advance? (service : Service I ε σ) (guarded : I.Call → Bool) (env : ε) (i : Nat) (g : Guarded K I σ α) :
    Option (Guarded K I σ α) :=
  match g.grips[i]? with
  | none => none
  | some .free =>
    match g.lock? guarded i with
    | none => (g.machine.advance? service env i).map fun m => { g with machine := m }
    | some l => if g.isFree l then some (g.setGrip i (.taken l)) else none
  | some (.taken l) => (g.machine.advance? service env i).map fun m => { g.setGrip i (.used l) with machine := m }
  | some (.used _) => some (g.setGrip i .free)

/-- Makes a move; a thread that cannot move leaves everything as it is. -/
def move (service : Service I ε σ) (guarded : I.Call → Bool) (g : Guarded K I σ α) :
    Move K I ε α → Guarded K I σ α
  | .start p => { machine := g.machine.start p, grips := g.grips ++ [.free] }
  | .advance i env => (g.advance? service guarded env i).getD g

def run (service : Service I ε σ) (guarded : I.Call → Bool) (moves : List (Move K I ε α)) (g : Guarded K I σ α) :
    Guarded K I σ α :=
  moves.foldl (move service guarded) g

/-- Whether a move is one of the machine below. -/
def isAccess (guarded : I.Call → Bool) (g : Guarded K I σ α) : Move K I ε α → Bool
  | .start _ => true
  | .advance i _ =>
    match g.grips[i]? with
    | some .free => (g.lock? guarded i).isNone
    | some (.taken _) => true
    | _ => false

/-- The moves that the machine below makes. -/
def accesses (service : Service I ε σ) (guarded : I.Call → Bool) :
    List (Move K I ε α) → Guarded K I σ α → List (Move K I ε α)
  | [], _ => []
  | mv :: rest, g => (if g.isAccess guarded mv then [mv] else []) ++ accesses service guarded rest (g.move service guarded mv)

/-- What happens in a series of moves, taking and letting go of locks aside. -/
def history (service : Service I ε σ) (guarded : I.Call → Bool) (moves : List (Move K I ε α)) (g : Guarded K I σ α) :
    List (Happening K I ε σ) :=
  g.machine.history service (g.accesses service guarded moves)

end Guarded

/-! ## flat programs -/

/-- Outside of a section or inside of one, as `b` says: the program opens sections only outside, forgets and leaves only
inside, and ends outside. -/
def Program.Flat : Bool → Program K I α → Prop
  | b, .done _ => b = false
  | b, .acquire _ next => ∀ i, Flat b (next i)
  | b, .look next => ∀ t, Flat b (next t)
  | b, .enter _ next => b = false ∧ Flat true next
  | b, .leave next => b = true ∧ Flat false next
  | b, .forget _ next => b = true ∧ ∀ r, Flat true (next r)
  | b, .isCurrent _ next => ∀ r, Flat b (next r)
  | b, .call _ next => ∀ r, Flat b (next r)

/-- Whether a thread is inside of a section or on the way into one: from the first fetching of its token until the section
is closed. -/
def Deed.inside : Deed K I → Bool → Bool
  | .sought _ _, _ => true
  | .closed, _ => false
  | _, b => b

/-- Whether a thread with these deeds is inside of a section or on the way into one. -/
def isInside (ds : List (Deed K I)) : Bool := ds.foldl (fun b d => d.inside b) false

theorem isInside_append (ds : List (Deed K I)) (d : Deed K I) : isInside (ds ++ [d]) = d.inside (isInside ds) := by
  simp [isInside]

namespace Thread

/-- What holds of a thread that runs a flat program; `b` says whether it is inside of a section or on the way into one. -/
structure Level (b : Bool) (t : Thread K I α) : Prop where
  flat : t.program.Flat (!t.sections.isEmpty)
  /-- At most one section is open. -/
  single : t.sections.length ≤ 1
  outside : b = false → t.stage = .ready ∧ t.sections = []
  entering : ∀ i, t.stage = .fetched i ∨ t.stage = .rejected i → ∃ k next, t.program = .enter k next
  retiring : t.stage = .retiring → ∃ h, t.ending? = some h

variable {b : Bool} {t : Thread K I α}

theorem level_start {p : Program K I α} (flat : p.Flat false) (b : Bool) : Level b { program := p } where
  flat := flat
  single := Nat.zero_le _
  outside _ := ⟨rfl, rfl⟩
  entering i h := by rcases h with h | h <;> cases h
  retiring h := by cases h

/-- A thread on the way into a section has no section open. -/
theorem Level.no_sections (level : t.Level b) {i : TokenId} (h : t.stage = .fetched i ∨ t.stage = .rejected i) :
    t.sections = [] := by
  obtain ⟨k, next, hp⟩ := level.entering i h
  have flat := level.flat
  rw [hp] at flat
  simpa using flat.1

/-- A thread holds one token at most. -/
theorem Level.tokens_length (level : t.Level b) : t.tokens.length ≤ 1 := by
  unfold tokens
  split
  · rename_i i hs
    simp [level.no_sections (.inr hs)]
  · simpa using level.single

/-- A thread that waits for a token holds none. -/
theorem Level.tokens_of_fetched (level : t.Level b) {i : TokenId} (h : t.stage = .fetched i) : t.tokens = [] := by
  simp [tokens, h, level.no_sections (.inl h)]

/-- A thread outside of its sections holds no token. -/
theorem Level.tokens_of_outside (level : t.Level b) (h : b = false) : t.tokens = [] := by
  obtain ⟨hs, hn⟩ := level.outside h
  simp [tokens, hs, hn]

/-- A thread that has ended holds no token, whatever its answer. -/
theorem Level.tokens_of_answer (level : t.Level b) {a : α} (h : t.answer? = some a) : t.tokens = [] := by
  obtain ⟨p, stage, hs⟩ := t
  cases p with
  | done a =>
    have none : hs = [] := by simpa [Program.Flat] using level.flat
    subst none
    cases stage with
    | rejected i => simpa using level.entering i (.inr rfl)
    | _ => rfl
  | _ => cases h

variable [DecidableEq K] {service : Service I ε σ} {env : ε} {table table' : LockTable K} {data data' : σ}
  {t' : Thread K I α} {d : Deed K I}

/-- A step keeps a thread level. -/
theorem Level.step (level : t.Level b) (step : t.Step service env table data d table' data' t') :
    t'.Level (d.inside b) := by
  have flat := level.flat
  have ready {p : Program K I α} {hs : List (Held K)} {b : Bool} (flat : p.Flat (!hs.isEmpty)) (single : hs.length ≤ 1)
      (outside : b = false → hs = []) : Level b ⟨p, .ready, hs⟩ :=
    ⟨flat, single, fun h => ⟨rfl, outside h⟩, nofun, nofun⟩
  cases step with
  | fetched | looked | asked | askedNothing | called =>
    exact ready (flat _) level.single fun h => (level.outside h).2
  | @sought k next hs => exact ⟨flat, level.single, nofun, fun _ _ => ⟨k, next, rfl⟩, nofun⟩
  | @declined k next i hs =>
    exact ⟨flat, level.single, fun h => absurd (level.outside h).1 nofun, fun _ _ => ⟨k, next, rfl⟩, nofun⟩
  | gaveBack => exact ready flat level.single fun h => (level.outside h).2
  | opened =>
    obtain rfl := level.no_sections (.inl rfl)
    exact ready flat.2 (Nat.le_refl _) fun h => absurd (level.outside h).1 nofun
  | @closed next h hs =>
    obtain rfl : hs = [] := List.eq_nil_of_length_eq_zero (Nat.le_zero.1 (Nat.le_of_succ_le_succ level.single))
    exact ready flat.2 (Nat.zero_le _) fun _ => rfl
  | closedNothing => exact absurd flat.1 nofun
  | @retired depth next g hs found =>
    refine ⟨flat, level.single, fun h => ?_, nofun, fun _ => ⟨g, found⟩⟩
    obtain rfl : hs = [] := (level.outside h).2
    cases found
  | forgot => exact ready (flat.1 ▸ flat.2 _) level.single fun h => (level.outside h).2
  | forgotNothing => exact ready (flat.1 ▸ flat.2 _) level.single fun h => (level.outside h).2

/-- A thread that has not ended can make a step, unless it waits for a token. -/
theorem Level.isSome_step? (level : t.Level b) (running : t.answer? = none)
    (free : ∀ i, t.stage = .fetched i → (table.token i).held = false) :
    (t.step? service env table data).isSome := by
  obtain ⟨p, stage, hs⟩ := t
  cases stage with
  | ready =>
    cases p with
    | done => cases running
    | leave => cases hs <;> rfl
    | forget depth | isCurrent depth => cases found : hs[depth]? <;> simp [step?, found]
    | _ => rfl
  | fetched i =>
    obtain ⟨k, next, rfl⟩ := level.entering i (.inl rfl)
    simp only [step?, free i rfl]
    split
    · contradiction
    · split <;> rfl
  | rejected i =>
    obtain ⟨k, next, rfl⟩ := level.entering i (.inr rfl)
    rfl
  | retiring =>
    obtain ⟨h, ending⟩ := level.retiring rfl
    cases p with
    | forget depth next =>
      have found : hs[depth]? = some h := ending
      simp [step?, found]
    | _ => cases ending

/-- A token that is held after a step is the thread's, or it was held before, and not by the thread. -/
theorem Step.held_cases (step : t.Step service env table data d table' data' t') {i : TokenId}
    (held : (table'.token i).held = true) : i ∈ t'.tokens ∨ (table.token i).held = true ∧ i ∉ t.tokens := by
  have kept (sub : ∀ j ∈ t.tokens, j ∈ t'.tokens) (before : (table.token i).held = true) :
      i ∈ t'.tokens ∨ (table.token i).held = true ∧ i ∉ t.tokens := by
    by_cases hi : i ∈ t.tokens
    · exact .inl (sub i hi)
    · exact .inr ⟨before, hi⟩
  have released {j : TokenId} (same : t.tokens = j :: t'.tokens) (h : ((table.release j).token i).held = true) :
      i ∈ t'.tokens ∨ (table.token i).held = true ∧ i ∉ t.tokens := by
    rw [LockTable.token_release] at h
    split at h
    · cases h
    · rename_i other
      by_cases hi : i ∈ t'.tokens
      · exact .inl hi
      · exact .inr ⟨h, by rw [same]; exact List.not_mem_cons_of_ne_of_not_mem (Ne.symm other) hi⟩
  have taken {j : TokenId} (same : t'.tokens = j :: t.tokens) (h : ((table.hold j).token i).held = true) :
      i ∈ t'.tokens ∨ (table.token i).held = true ∧ i ∉ t.tokens := by
    by_cases hj : j = i
    · exact .inl (by rw [same, hj]; exact List.mem_cons_self ..)
    · rw [LockTable.token_hold_of_ne hj] at h
      exact kept (fun x hx => by rw [same]; exact List.mem_cons_of_mem _ hx) h
  cases step with
  | fetched | sought => exact kept (fun _ h => h) (by simpa using held)
  | declined | opened => exact taken rfl held
  | gaveBack | closed => exact released rfl held
  | retired => exact kept (fun _ h => h) (by simpa using held)
  | forgot => exact kept (fun _ h => h) (by simpa using held)
  | _ => exact kept (fun _ h => h) held

end Thread

/-! ## machines whose threads run flat programs -/

/-- What holds of a machine as long as all threads run flat programs. -/
structure Machine.Orderly [DecidableEq K] (hist : List (Happening K I ε σ)) (m : Machine K I σ α) : Prop where
  sound : m.Sound
  level : ∀ (n : Nat) (t : Thread K I α), m.threads[n]? = some t → t.Level (isInside (deedsOf n hist))
  /-- No token is held that no thread holds. -/
  holders : ∀ i, (m.table.token i).held = true →
    ∃ (n : Nat) (t : Thread K I α), m.threads[n]? = some t ∧ i ∈ t.tokens

namespace Machine

variable [DecidableEq K] {service : Service I ε σ} {m : Machine K I σ α} {hist : List (Happening K I ε σ)}

theorem orderly_new (policy : TokenPolicy) (data : σ) :
    Orderly ([] : List (Happening K I ε σ)) ({ table := .new policy, data := data } : Machine K I σ α) where
  sound := sound_new policy data
  level n t h := by simp at h
  holders i h := by simp [LockTable.new, LockTable.token] at h

theorem Orderly.start (orderly : m.Orderly hist) {p : Program K I α} (flat : p.Flat false) :
    (m.start p).Orderly hist where
  sound := orderly.sound.start p
  level n t ht := by
    rcases threads_start.1 ht with ht | ⟨-, rfl⟩
    · exact orderly.level n t ht
    · exact Thread.level_start flat _
  holders i h := by
    obtain ⟨n, t, ht, hi⟩ := orderly.holders i h
    exact ⟨n, t, threads_start.2 (.inl ht), hi⟩

theorem Orderly.step (orderly : m.Orderly hist) {env : ε} {i : Nat} {t t' : Thread K I α} {d : Deed K I}
    {table : LockTable K} {data : σ} (ht : m.threads[i]? = some t)
    (step : t.Step service env m.table m.data d table data t') :
    (m.after i table data t').Orderly (hist ++ [⟨i, env, m.data, d⟩]) where
  sound := orderly.sound.step ht step
  level n x hx := by
    rw [deedsOf_append, deedsOf_one]
    rcases (threads_after ht).1 hx with ⟨rfl, rfl⟩ | ⟨hne, hx⟩
    · rw [if_pos rfl, isInside_append]
      exact (orderly.level n t ht).step step
    · rw [if_neg (Ne.symm hne), List.append_nil]
      exact orderly.level n x hx
  holders j hj := by
    rcases step.held_cases hj with hj | ⟨before, other⟩
    · exact ⟨i, t', threads_after_self ht, hj⟩
    · obtain ⟨n, x, hx, hm⟩ := orderly.holders j before
      refine ⟨n, x, (threads_after ht).2 (.inr ⟨?_, hx⟩), hm⟩
      rintro rfl
      rw [ht] at hx
      cases hx
      exact other hm

/-- A move keeps a machine orderly, if it starts flat programs only. -/
theorem Orderly.move (orderly : m.Orderly hist) {mv : Move K I ε α} (flat : ∀ p, mv = .start p → p.Flat false) :
    (m.move service mv).Orderly (hist ++ (m.happening? service mv).toList) := by
  rcases m.move_cases service mv with ⟨p, rfl, hh, hm⟩ | ⟨i, env, t, d, table, data, t', -, ht, step, hh, hm⟩ | ⟨hh, hm⟩
  · rw [hh, hm, Option.toList_none, List.append_nil]
    exact orderly.start (flat p rfl)
  · rw [hh, hm]
    exact orderly.step ht step
  · rw [hh, hm, Option.toList_none, List.append_nil]
    exact orderly

/-- A machine stays orderly in every run that starts flat programs only. -/
theorem Orderly.run (orderly : m.Orderly hist) {moves : List (Move K I ε α)}
    (flat : ∀ p, .start p ∈ moves → p.Flat false) :
    (m.run service moves).Orderly (hist ++ m.history service moves) := by
  induction moves generalizing m hist with
  | nil => simpa [Machine.run, history] using orderly
  | cons mv rest ih =>
    rw [history, ← List.append_assoc]
    apply ih
    · exact orderly.move fun p hp => flat p (hp ▸ List.mem_cons_self ..)
    · exact fun p hp => flat p (List.mem_cons_of_mem _ hp)

/-- Who holds a token has not ended, and does not wait for a token. -/
theorem Orderly.holder_moves (orderly : m.Orderly hist) {n : Nat} {t : Thread K I α} {i : TokenId}
    (ht : m.threads[n]? = some t) (hi : i ∈ t.tokens) (env : ε) :
    t.answer? = none ∧ (t.step? service env m.table m.data).isSome := by
  have level := orderly.level n t ht
  have running : t.answer? = none := by
    refine Option.eq_none_iff_forall_not_mem.2 fun a ha => ?_
    rw [level.tokens_of_answer ha] at hi
    cases hi
  refine ⟨running, level.isSome_step? running fun j hj => ?_⟩
  rw [level.tokens_of_fetched hj] at hi
  cases hi

/-- Some thread that has not ended is not waiting for a token, unless all have ended. -/
theorem Orderly.mover (orderly : m.Orderly hist) {n : Nat} {t : Thread K I α} (ht : m.threads[n]? = some t)
    (running : t.answer? = none) : ∃ (n : Nat) (t : Thread K I α), m.threads[n]? = some t ∧
      ∀ env, (t.step? service env m.table m.data).isSome := by
  by_cases held : ∃ i, (m.table.token i).held = true
  · obtain ⟨i, held⟩ := held
    obtain ⟨n, t, ht, hi⟩ := orderly.holders i held
    exact ⟨n, t, ht, fun env => (orderly.holder_moves ht hi env).2⟩
  · refine ⟨n, t, ht, fun env => (orderly.level n t ht).isSome_step? running fun i _ => ?_⟩
    exact Bool.eq_false_iff.2 fun h => held ⟨i, h⟩

theorem isSome_advance? {n : Nat} {t : Thread K I α} (ht : m.threads[n]? = some t) {env : ε}
    (h : (t.step? service env m.table m.data).isSome) : (m.advance? service env n).isSome := by
  obtain ⟨r, hr⟩ := Option.isSome_iff_exists.1 h
  simp [advance?, ht, hr]

end Machine

/-! ## the locks -/

namespace Guarded

variable [DecidableEq K] {service : Service I ε σ} {guarded : I.Call → Bool} {g : Guarded K I σ α}

/-- What a move is, and whether it is one of the machine below: a thread begins, or it makes an access that needs no lock,
takes a lock, makes the access that the lock is for, or lets go of it. A thread that cannot move changes nothing. -/
inductive Moved (service : Service I ε σ) (guarded : I.Call → Bool) (g : Guarded K I σ α) :
    Move K I ε α → Bool → Guarded K I σ α → Prop where
  | start {p} : Moved service guarded g (.start p) true { machine := g.machine.start p, grips := g.grips ++ [.free] }
  | stays {mv b} (still : b = true → g.machine.move service mv = g.machine) : Moved service guarded g mv b g
  | accesses {i env} (grip : g.grips[i]? = some .free) :
    Moved service guarded g (.advance i env) true { g with machine := g.machine.move service (.advance i env) }
  | takes {i env l} (lock : g.lock? guarded i = some l) (free : g.isFree l = true) :
    Moved service guarded g (.advance i env) false (g.setGrip i (.taken l))
  | uses {i env l} (grip : g.grips[i]? = some (.taken l)) :
    Moved service guarded g (.advance i env) true
      { g.setGrip i (.used l) with machine := g.machine.move service (.advance i env) }
  | letsGo {i env} : Moved service guarded g (.advance i env) false (g.setGrip i .free)

theorem moved (g : Guarded K I σ α) (mv : Move K I ε α) :
    Moved service guarded g mv (g.isAccess guarded mv) (g.move service guarded mv) := by
  cases mv with
  | start p => exact .start
  | advance i env =>
    cases hx : g.grips[i]? with
    | none => simpa [move, advance?, isAccess, hx] using Moved.stays (by simp)
    | some x =>
      cases x with
      | free =>
        cases hl : g.lock? guarded i with
        | none =>
          cases hm : g.machine.advance? service env i with
          | none => simpa [move, advance?, isAccess, hx, hl, hm] using Moved.stays (by simp [Machine.move, hm])
          | some m =>
            have accesses : Moved service guarded g (.advance i env) true
                { g with machine := g.machine.move service (.advance i env) } := .accesses hx
            simpa [move, advance?, isAccess, hx, hl, hm, Machine.move] using accesses
        | some l =>
          by_cases free : g.isFree l = true
          · simpa [move, advance?, isAccess, hx, hl, free] using Moved.takes hl free
          · simpa [move, advance?, isAccess, hx, hl, free] using Moved.stays (by simp)
      | taken l =>
        cases hm : g.machine.advance? service env i with
        | none => simpa [move, advance?, isAccess, hx, hm] using Moved.stays (by simp [Machine.move, hm])
        | some m =>
          have uses : Moved service guarded g (.advance i env) true
              { g.setGrip i (.used l) with machine := g.machine.move service (.advance i env) } := .uses hx
          simpa [move, advance?, isAccess, hx, hm, Machine.move] using uses
      | used l => simpa [move, advance?, isAccess, hx] using Moved.letsGo

/-- A move is one of the machine below, or leaves it alone. -/
theorem Moved.machine_eq {mv : Move K I ε α} {b : Bool} {g' : Guarded K I σ α} (h : Moved service guarded g mv b g') :
    g'.machine = if b then g.machine.move service mv else g.machine := by
  cases h with
  | stays still =>
    split
    · exact (still ‹_›).symm
    · rfl
  | _ => rfl

/-- The machine below makes those moves that are accesses, and no others. -/
theorem machine_run (moves : List (Move K I ε α)) (g : Guarded K I σ α) :
    (g.run service guarded moves).machine = g.machine.run service (g.accesses service guarded moves) := by
  induction moves generalizing g with
  | nil => rfl
  | cons mv rest ih =>
    show ((g.move service guarded mv).run service guarded rest).machine = _
    rw [ih, (g.moved mv).machine_eq, accesses, Machine.run_append]
    split <;> rfl

omit [DecidableEq K] in
/-- What the threads have to do with the locks after one of them has changed that. -/
theorem grips_setGrip {i n : Nat} {x y : Grip} (h : (g.setGrip i x).grips[n]? = some y) :
    n = i ∧ y = x ∨ n ≠ i ∧ g.grips[n]? = some y := by
  simp only [setGrip, List.getElem?_set] at h
  split at h
  · rename_i hi
    split at h
    · exact .inl ⟨hi.symm, (Option.some.inj h).symm⟩
    · cases h
  · rename_i hi
    exact .inr ⟨fun e => hi e.symm, h⟩

omit [DecidableEq K] in
theorem grips_start {p : Program K I α} {n : Nat} {y : Grip}
    (h : (⟨g.machine.start p, g.grips ++ [.free]⟩ : Guarded K I σ α).grips[n]? = some y) :
    y = .free ∨ g.grips[n]? = some y := by
  rw [List.getElem?_append] at h
  split at h
  · exact .inr h
  · exact .inl (List.mem_singleton.1 (List.mem_of_getElem? h))

/-- A thread holds a lock. -/
def Holds (g : Guarded K I σ α) (n : Nat) (l : Lock) : Prop := ∃ x, g.grips[n]? = some x ∧ x.lock? = some l

omit [DecidableEq K] in
theorem not_holds_of_isFree {l : Lock} (free : g.isFree l = true) (n : Nat) : ¬ g.Holds n l := by
  rintro ⟨x, hx, hl⟩
  simpa [hl] using List.all_eq_true.1 free x (List.mem_of_getElem? hx)

section Moved

variable {mv : Move K I ε α} {b : Bool} {g' : Guarded K I σ α}

/-- A thread that holds a lock held it before, or it has just taken it while it was free. -/
theorem Moved.holds (h : Moved service guarded g mv b g') {n : Nat} {l : Lock} (holds : g'.Holds n l) :
    g.Holds n l ∨ g.isFree l = true ∧ ∃ env, mv = .advance n env := by
  obtain ⟨x, hx, hl⟩ := holds
  cases h with
  | start =>
    rcases grips_start hx with rfl | hx
    · cases hl
    · exact .inl ⟨x, hx, hl⟩
  | stays | accesses => exact .inl ⟨x, hx, hl⟩
  | takes _ free =>
    rcases grips_setGrip hx with ⟨rfl, rfl⟩ | ⟨-, hx⟩
    · cases hl
      exact .inr ⟨free, _, rfl⟩
    · exact .inl ⟨x, hx, hl⟩
  | uses grip =>
    rcases grips_setGrip hx with ⟨rfl, rfl⟩ | ⟨-, hx⟩
    · exact .inl ⟨_, grip, hl⟩
    · exact .inl ⟨x, hx, hl⟩
  | letsGo =>
    rcases grips_setGrip hx with ⟨rfl, rfl⟩ | ⟨-, hx⟩
    · cases hl
    · exact .inl ⟨x, hx, hl⟩

/-- A step of one thread leaves the others alone. -/
theorem threads_move (m : Machine K I σ α) (i : Nat) (env : ε) :
    (m.move service (.advance i env)).threads.length = m.threads.length ∧
      ∀ n, n ≠ i → (m.move service (.advance i env)).threads[n]? = m.threads[n]? := by
  rcases m.move_cases service (.advance i env) with ⟨p, hp, -⟩ | ⟨i', env', t, d, table, data, t', hm, ht, -, -, h⟩ | ⟨-, h⟩
  · cases hp
  · cases hm
    rw [h]
    exact ⟨by simp [Machine.after], fun n hn => Machine.threads_after_of_ne hn⟩
  · rw [h]
    exact ⟨rfl, fun _ _ => rfl⟩

theorem Moved.length (h : Moved service guarded g mv b g') (length : g.grips.length = g.machine.threads.length) :
    g'.grips.length = g'.machine.threads.length := by
  cases h with
  | start => simp [Machine.start, length]
  | stays => exact length
  | accesses => exact length.trans (threads_move ..).1.symm
  | uses => exact (List.length_set ..).trans (length.trans (threads_move ..).1.symm)
  | takes | letsGo => exact (List.length_set ..).trans length

/-- A thread that has taken a lock needs it, or it had taken it before and is where it was. -/
theorem Moved.taken (h : Moved service guarded g mv b g') (length : g.grips.length = g.machine.threads.length) {n : Nat}
    {l : Lock} {t : Thread K I α} (ht : g'.machine.threads[n]? = some t) (hx : g'.grips[n]? = some (.taken l)) :
    t.lock? guarded = some l ∨ g.machine.threads[n]? = some t ∧ g.grips[n]? = some (.taken l) := by
  cases h with
  | start =>
    rcases grips_start hx with hy | hx
    · cases hy
    · rcases Machine.threads_start.1 ht with ht | ⟨hn, -⟩
      · exact .inr ⟨ht, hx⟩
      · exact absurd (List.getElem?_eq_some_iff.1 hx).1 (by omega)
  | stays => exact .inr ⟨ht, hx⟩
  | @accesses i env grip =>
    by_cases hn : n = i
    · subst hn
      rw [grip] at hx
      cases hx
    · exact .inr ⟨((threads_move g.machine i env).2 n hn).symm.trans ht, hx⟩
  | takes lock _ =>
    rcases grips_setGrip hx with ⟨rfl, hy⟩ | ⟨-, hx⟩
    · cases hy
      have ht : g.machine.threads[n]? = some t := ht
      exact .inl (by simpa [lock?, ht] using lock)
    · exact .inr ⟨ht, hx⟩
  | @uses i env =>
    rcases grips_setGrip hx with ⟨-, hy⟩ | ⟨hn, hx⟩
    · cases hy
    · exact .inr ⟨((threads_move g.machine i env).2 n hn).symm.trans ht, hx⟩
  | letsGo =>
    rcases grips_setGrip hx with ⟨-, hy⟩ | ⟨-, hx⟩
    · cases hy
    · exact .inr ⟨ht, hx⟩

end Moved

/-- What holds of a machine and its locks as long as all threads run flat programs. -/
structure Orderly (guarded : I.Call → Bool) (hist : List (Happening K I ε σ)) (g : Guarded K I σ α) : Prop where
  machine : g.machine.Orderly hist
  length : g.grips.length = g.machine.threads.length
  /-- Who has taken a lock has not yet made the access that it is for. -/
  taken : ∀ (n : Nat) (t : Thread K I α) (l : Lock), g.machine.threads[n]? = some t → g.grips[n]? = some (.taken l) →
    t.lock? guarded = some l
  /-- No lock is held by two threads. -/
  apart : ∀ n n' l, g.Holds n l → g.Holds n' l → n = n'

variable {hist : List (Happening K I ε σ)}

theorem orderly_new (guarded : I.Call → Bool) (policy : TokenPolicy) (data : σ) :
    Orderly guarded ([] : List (Happening K I ε σ))
      ({ machine := { table := .new policy, data := data } } : Guarded K I σ α) where
  machine := Machine.orderly_new policy data
  length := rfl
  taken n t l h := by simp at h
  apart n n' l h := by
    obtain ⟨x, hx, -⟩ := h
    simp at hx

/-- A move keeps the locks in order, if it starts flat programs only. -/
theorem Orderly.move (orderly : g.Orderly guarded hist) {mv : Move K I ε α} (flat : ∀ p, mv = .start p → p.Flat false) :
    (g.move service guarded mv).Orderly guarded
      (hist ++ if g.isAccess guarded mv then (g.machine.happening? service mv).toList else []) where
  machine := by
    rw [(g.moved mv).machine_eq]
    split
    · exact orderly.machine.move flat
    · rw [List.append_nil]
      exact orderly.machine
  length := (g.moved mv).length orderly.length
  taken n t l ht hx := by
    rcases (g.moved mv).taken orderly.length ht hx with h | ⟨ht, hx⟩
    · exact h
    · exact orderly.taken n t l ht hx
  apart n n' l h h' := by
    rcases (g.moved mv).holds h with h | ⟨free, env, rfl⟩
    · rcases (g.moved mv).holds h' with h' | ⟨free, -⟩
      · exact orderly.apart n n' l h h'
      · exact absurd h (not_holds_of_isFree free n)
    · rcases (g.moved (.advance n env)).holds h' with h' | ⟨-, env', same⟩
      · exact absurd h' (not_holds_of_isFree free n')
      · cases same
        rfl

theorem history_cons (mv : Move K I ε α) (rest : List (Move K I ε α)) (g : Guarded K I σ α) :
    g.history service guarded (mv :: rest) =
      (if g.isAccess guarded mv then (g.machine.happening? service mv).toList else []) ++
        (g.move service guarded mv).history service guarded rest := by
  rw [history, accesses, Machine.history_append, history, (g.moved mv).machine_eq]
  split
  · simp [Machine.history, Machine.run]
  · rfl

/-- The locks stay in order in every run that starts flat programs only. -/
theorem Orderly.run (orderly : g.Orderly guarded hist) {moves : List (Move K I ε α)}
    (flat : ∀ p, .start p ∈ moves → p.Flat false) :
    (g.run service guarded moves).Orderly guarded (hist ++ g.history service guarded moves) := by
  induction moves generalizing g hist with
  | nil => simpa [Guarded.run, history, accesses, Machine.history] using orderly
  | cons mv rest ih =>
    rw [history_cons, ← List.append_assoc]
    apply ih
    · exact orderly.move fun p hp => flat p (hp ▸ List.mem_cons_self ..)
    · exact fun p hp => flat p (List.mem_cons_of_mem _ hp)

/-- Who has taken a lock can make the access that it is for: no access waits. -/
theorem Orderly.isSome_step?_of_taken (orderly : g.Orderly guarded hist) {n : Nat} {t : Thread K I α} {l : Lock}
    (ht : g.machine.threads[n]? = some t) (hx : g.grips[n]? = some (.taken l)) (env : ε) :
    (t.step? service env g.machine.table g.machine.data).isSome := by
  have lock := orderly.taken n t l ht hx
  apply (orderly.machine.level n t ht).isSome_step?
  · obtain ⟨p, stage, hs⟩ := t
    cases p with
    | done => cases stage <;> cases lock
    | _ => rfl
  · intro i hi
    simp [Thread.lock?, hi] at lock

/-- While all locks are free, a thread that could make a step of the machine can move: it takes the lock that it needs. -/
theorem isSome_advance?_of_free {n : Nat} {t : Thread K I α} {env : ε} (ht : g.machine.threads[n]? = some t)
    (hx : g.grips[n]? = some .free) (free : ∀ l, g.isFree l = true)
    (step : (t.step? service env g.machine.table g.machine.data).isSome) :
    (g.advance? service guarded env n).isSome := by
  simp only [advance?, hx]
  cases g.lock? guarded n with
  | none => simpa using Machine.isSome_advance? ht step
  | some l => simp [free l]

/-- A thread that waits for a token holds no lock. -/
theorem Orderly.not_holds_of_waits (orderly : g.Orderly guarded hist) {n : Nat} {t : Thread K I α} {i : TokenId} {env : ε}
    (ht : g.machine.threads[n]? = some t) (hs : t.stage = .fetched i) (waits : g.advance? service guarded env n = none)
    (l : Lock) : ¬ g.Holds n l := by
  rintro ⟨x, hx, hl⟩
  cases x with
  | free => cases hl
  | taken l' =>
    have lock := orderly.taken n t l' ht hx
    simp [Thread.lock?, hs] at lock
  | used l' => simp [advance?, hx] at waits

/-- As long as a thread has not ended, or holds a lock still, some thread can make a step: one that holds a lock, or else
one that holds a token, or else any. -/
theorem Orderly.progress (orderly : g.Orderly guarded hist) {n : Nat} {t : Thread K I α}
    (ht : g.machine.threads[n]? = some t) (unfinished : t.answer? = none ∨ ∃ l, g.Holds n l) :
    ∃ n, ∀ env, (g.advance? service guarded env n).isSome := by
  have grip {n : Nat} {t : Thread K I α} (ht : g.machine.threads[n]? = some t) : ∃ x, g.grips[n]? = some x := by
    have hlt := (List.getElem?_eq_some_iff.1 ht).1
    exact ⟨_, List.getElem?_eq_getElem (orderly.length.symm ▸ hlt)⟩
  by_cases busy : ∃ (n : Nat) (t : Thread K I α), g.machine.threads[n]? = some t ∧ g.grips[n]? ≠ some .free
  · obtain ⟨n, t, ht, hne⟩ := busy
    obtain ⟨x, hx⟩ := grip ht
    refine ⟨n, fun env => ?_⟩
    cases x with
    | free => exact absurd hx hne
    | taken l => simpa [advance?, hx] using Machine.isSome_advance? ht (orderly.isSome_step?_of_taken ht hx env)
    | used l => simp [advance?, hx]
  · have released : ∀ (n : Nat) (t : Thread K I α), g.machine.threads[n]? = some t → g.grips[n]? = some .free := by
      intro n t ht
      by_contra hne
      exact busy ⟨n, t, ht, hne⟩
    have free (l : Lock) : g.isFree l = true := by
      refine List.all_eq_true.2 fun x hx => ?_
      obtain ⟨n, hn, rfl⟩ := List.getElem_of_mem hx
      have same := released n _ (List.getElem?_eq_getElem (orderly.length ▸ hn))
      rw [List.getElem?_eq_getElem hn] at same
      simp [Option.some.inj same, Grip.lock?]
    have running : t.answer? = none := unfinished.resolve_right fun ⟨l, h⟩ => not_holds_of_isFree (free l) n h
    obtain ⟨n, t, ht, step⟩ := orderly.machine.mover ht running
    exact ⟨n, fun env => isSome_advance?_of_free ht (released n t ht) free (step env)⟩

end Guarded

end CorrelationBarrier
