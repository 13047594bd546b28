import CorrelationBarrier.Machine
import Mathlib.Data.List.Induction

/-!
# Histories

What the threads of a machine do in a run, one atomic step after the other.

* `Deed` — what one step of a thread is; `Thread.deed?` names the deed of a thread's next step;
* `Thread.Step` — the steps of a thread as a relation, one rule for each deed; `Thread.step_of_step?` takes a step of
  `Thread.step?` apart;
* `Happening` — a deed with its thread, its circumstances and the data that it found;
* `Machine.history` — the happenings of a run, oldest first;
* `Machine.Reaches` — the runs as a relation, for inductions from the last step backwards.
-/

namespace CorrelationBarrier

/-- What a thread does in one step. -/
inductive Deed (K : Type) (I : Interface) where
  /-- Fetched a token outside of an entering. -/
  | fetched (key : K) (token : TokenId)
  | looked (table : LockTable K)
  /-- Fetched the token of a key that it is entering. -/
  | sought (key : K) (token : TokenId)
  /-- Got hold of the token, and found it retired. -/
  | declined (token : TokenId)
  /-- Let go of a token that it found retired. -/
  | gaveBack (token : TokenId)
  | opened (held : Held K)
  | closed
  /-- Began to forget the key of an open section: retired its token. -/
  | retired (depth : Nat)
  /-- Ended forgetting, and got this reply. -/
  | forgot (depth : Nat) (removed : Bool)
  | asked (depth : Nat) (current : Bool)
  | called (c : I.Call) (reply : I.Reply c)

variable {K : Type} {I : Interface} {σ ε α : Type}

/-- Whether a deed has taken an entry out of the table. -/
def Deed.removes : Deed K I → Bool
  | .forgot _ removed => removed
  | _ => false

namespace Thread

variable [DecidableEq K]

/-- The deed of a thread's next step, if it can make one. -/
def deed? (service : Service I ε σ) (env : ε) (table : LockTable K) (data : σ) (t : Thread K I α) :
    Option (Deed K I) :=
  match t.stage, t.program with
  | .ready, .acquire k _ => some (.fetched k (table.acquire k).1)
  | .ready, .look _ => some (.looked table)
  | .ready, .enter k _ => some (.sought k (table.acquire k).1)
  | .fetched i, .enter k _ =>
    if (table.token i).held then none else if table.rejects i then some (.declined i) else some (.opened ⟨k, i⟩)
  | .rejected i, .enter _ _ => some (.gaveBack i)
  | .ready, .leave _ => some .closed
  | .ready, .forget depth _ => if t.sections[depth]?.isSome then some (.retired depth) else some (.forgot depth false)
  | .retiring, .forget depth _ => t.sections[depth]?.map fun h => .forgot depth (table.unlink h.key h.token).1
  | .ready, .isCurrent depth _ => some (.asked depth (t.sections[depth]?.any fun h => !(table.token h.token).retired))
  | .ready, .call c _ => some (.called c (service env c data).1)
  | _, _ => none

/-- The steps of a thread, with the table and the data before and after. -/
inductive Step (service : Service I ε σ) (env : ε) :
    LockTable K → σ → Thread K I α → Deed K I → LockTable K → σ → Thread K I α → Prop where
  | fetched {table data k next hs} :
    Step service env table data ⟨.acquire k next, .ready, hs⟩ (.fetched k (table.acquire k).1)
      (table.acquire k).2 data ⟨next (table.acquire k).1, .ready, hs⟩
  | looked {table data next hs} :
    Step service env table data ⟨.look next, .ready, hs⟩ (.looked table) table data ⟨next table, .ready, hs⟩
  | sought {table data k next hs} :
    Step service env table data ⟨.enter k next, .ready, hs⟩ (.sought k (table.acquire k).1)
      (table.acquire k).2 data ⟨.enter k next, .fetched (table.acquire k).1, hs⟩
  | declined {table data k next i hs} (free : (table.token i).held = false) (stale : table.rejects i = true) :
    Step service env table data ⟨.enter k next, .fetched i, hs⟩ (.declined i)
      (table.hold i) data ⟨.enter k next, .rejected i, hs⟩
  | gaveBack {table data k next i hs} :
    Step service env table data ⟨.enter k next, .rejected i, hs⟩ (.gaveBack i)
      (table.release i) data ⟨.enter k next, .ready, hs⟩
  | opened {table data k next i hs} (free : (table.token i).held = false) (fresh : table.rejects i = false) :
    Step service env table data ⟨.enter k next, .fetched i, hs⟩ (.opened ⟨k, i⟩)
      (table.hold i) data ⟨next, .ready, ⟨k, i⟩ :: hs⟩
  | closed {table data next h hs} :
    Step service env table data ⟨.leave next, .ready, h :: hs⟩ .closed
      (table.release h.token) data ⟨next, .ready, hs⟩
  | closedNothing {table data next} :
    Step service env table data ⟨.leave next, .ready, []⟩ .closed table data ⟨next, .ready, []⟩
  | retired {table data depth next h hs} (found : hs[depth]? = some h) :
    Step service env table data ⟨.forget depth next, .ready, hs⟩ (.retired depth)
      (table.retire h.token) data ⟨.forget depth next, .retiring, hs⟩
  | forgot {table data depth next h hs} (found : hs[depth]? = some h) :
    Step service env table data ⟨.forget depth next, .retiring, hs⟩ (.forgot depth (table.unlink h.key h.token).1)
      (table.unlink h.key h.token).2 data ⟨next (table.unlink h.key h.token).1, .ready, hs⟩
  | forgotNothing {table data depth next hs} (missing : hs[depth]? = none) :
    Step service env table data ⟨.forget depth next, .ready, hs⟩ (.forgot depth false)
      table data ⟨next false, .ready, hs⟩
  | asked {table data depth next h hs} (found : hs[depth]? = some h) :
    Step service env table data ⟨.isCurrent depth next, .ready, hs⟩ (.asked depth (!(table.token h.token).retired))
      table data ⟨next (!(table.token h.token).retired), .ready, hs⟩
  | askedNothing {table data depth next hs} (missing : hs[depth]? = none) :
    Step service env table data ⟨.isCurrent depth next, .ready, hs⟩ (.asked depth false)
      table data ⟨next false, .ready, hs⟩
  | called {table data c next hs} :
    Step service env table data ⟨.call c next, .ready, hs⟩ (.called c (service env c data).1)
      table (service env c data).2 ⟨next (service env c data).1, .ready, hs⟩

/-- A step of a thread is one of the rules, and `deed?` names it. -/
theorem step_of_step? {service : Service I ε σ} {env : ε} {table table' : LockTable K} {data data' : σ}
    {t t' : Thread K I α} (h : t.step? service env table data = some (table', data', t')) :
    ∃ d, t.deed? service env table data = some d ∧ Step service env table data t d table' data' t' := by
  obtain ⟨p, stage, hs⟩ := t
  cases stage with
  | ready =>
    cases p with
    | done => simp [step?] at h
    | acquire k next =>
      cases h
      exact ⟨_, rfl, .fetched⟩
    | look next =>
      cases h
      exact ⟨_, rfl, .looked⟩
    | enter k next =>
      cases h
      exact ⟨_, rfl, .sought⟩
    | leave next =>
      cases hs with
      | nil =>
        cases h
        exact ⟨_, rfl, .closedNothing⟩
      | cons =>
        cases h
        exact ⟨_, rfl, .closed⟩
    | forget depth next =>
      simp only [step?] at h
      split at h
      · rename_i missing
        cases h
        exact ⟨_, by simp [deed?, missing], .forgotNothing missing⟩
      · rename_i found
        cases h
        exact ⟨_, by simp [deed?, found], .retired found⟩
    | isCurrent depth next =>
      simp only [step?] at h
      split at h
      · rename_i missing
        cases h
        exact ⟨_, by simp [deed?, missing], .askedNothing missing⟩
      · rename_i found
        cases h
        exact ⟨_, by simp [deed?, found], .asked found⟩
    | call c next =>
      cases h
      exact ⟨_, rfl, .called⟩
  | fetched i =>
    cases p with
    | enter k next =>
      simp only [step?] at h
      split at h
      · simp at h
      · rename_i free
        have free : (table.token i).held = false := by simpa using free
        split at h
        · rename_i stale
          cases h
          exact ⟨_, by simp [deed?, free, stale], .declined free stale⟩
        · rename_i fresh
          have fresh : table.rejects i = false := by simpa using fresh
          cases h
          exact ⟨_, by simp [deed?, free, fresh], .opened free fresh⟩
    | _ => simp [step?] at h
  | rejected i =>
    cases p with
    | enter k next =>
      cases h
      exact ⟨_, rfl, .gaveBack⟩
    | _ => simp [step?] at h
  | retiring =>
    cases p with
    | forget depth next =>
      simp only [step?] at h
      split at h
      · cases h
      · rename_i found
        cases h
        exact ⟨_, by simp [deed?, found], .forgot found⟩
    | _ => simp [step?] at h

/-- Every step by the rules is one that the thread makes. -/
theorem Step.step?_eq {service : Service I ε σ} {env : ε} {table table' : LockTable K} {data data' : σ}
    {t t' : Thread K I α} {d : Deed K I} (step : Step service env table data t d table' data' t') :
    t.step? service env table data = some (table', data', t') := by
  cases step with
  | declined free stale => simp [step?, free, stale]
  | opened free fresh => simp [step?, free, fresh]
  | retired found | forgot found | asked found => simp [step?, found]
  | forgotNothing missing | askedNothing missing => simp [step?, missing]
  | _ => rfl

/-- A step is a call, which the shared data answer, or it leaves the data alone. -/
theorem Step.call_or_not {service : Service I ε σ} {env : ε} {table table' : LockTable K} {data data' : σ}
    {t t' : Thread K I α} {d : Deed K I} (step : Step service env table data t d table' data' t') :
    (∃ c, d = .called c (service env c data).1 ∧ data' = (service env c data).2) ∨
      (∀ c r, d ≠ .called c r) ∧ data' = data := by
  cases step with
  | called => exact .inl ⟨_, rfl, rfl⟩
  | _ => exact .inr ⟨nofun, rfl⟩

/-- The reply to a call is that of the shared data. -/
theorem Step.reply_eq {service : Service I ε σ} {env : ε} {table table' : LockTable K} {data data' : σ}
    {t t' : Thread K I α} {d : Deed K I} (step : Step service env table data t d table' data' t') {c : I.Call}
    {r : I.Reply c} (hd : d = .called c r) : r = (service env c data).1 := by
  rcases step.call_or_not with ⟨c', rfl, -⟩ | ⟨hn, -⟩
  · cases hd
    rfl
  · exact absurd hd (hn c r)

/-- A thread that makes a step has not ended before it. -/
theorem Step.running {service : Service I ε σ} {env : ε} {table table' : LockTable K} {data data' : σ}
    {t t' : Thread K I α} {d : Deed K I} (step : Step service env table data t d table' data' t') :
    t.answer? = none := by
  cases step <;> rfl

/-- A thread that is in the midst of an action has not ended. -/
theorem Step.ready_or_running {service : Service I ε σ} {env : ε} {table table' : LockTable K} {data data' : σ}
    {t t' : Thread K I α} {d : Deed K I} (step : Step service env table data t d table' data' t') :
    t'.stage = .ready ∨ t'.answer? = none := by
  cases step with
  | sought | declined | retired => exact .inr rfl
  | _ => exact .inl rfl

theorem deed?_isSome (service : Service I ε σ) (env : ε) (table : LockTable K) (data : σ) (t : Thread K I α) :
    (t.deed? service env table data).isSome = (t.step? service env table data).isSome := by
  obtain ⟨p, stage, hs⟩ := t
  cases stage <;> cases p <;> try rfl
  case ready.leave => cases hs <;> rfl
  case ready.forget depth _ => cases found : hs[depth]? <;> simp [deed?, step?, found]
  case ready.isCurrent depth _ => cases found : hs[depth]? <;> simp [deed?, step?, found]
  case fetched.enter =>
    simp only [deed?, step?]
    split
    · rfl
    · split <;> rfl
  case retiring.forget depth _ => cases found : hs[depth]? <;> simp [deed?, step?, found]

end Thread

/-- A deed in a run: who did it, under which circumstances, and the data as it was before. -/
structure Happening (K : Type) (I : Interface) (ε σ : Type) where
  thread : Nat
  env : ε
  data : σ
  deed : Deed K I

/-- The deeds of one thread, in order. -/
def deedsOf (n : Nat) (hist : List (Happening K I ε σ)) : List (Deed K I) :=
  (hist.filter (·.thread = n)).map (·.deed)

theorem deedsOf_append (n : Nat) (hist hist' : List (Happening K I ε σ)) :
    deedsOf n (hist ++ hist') = deedsOf n hist ++ deedsOf n hist' := by
  simp [deedsOf]

theorem deedsOf_one (n : Nat) (e : Happening K I ε σ) :
    deedsOf n [e] = if e.thread = n then [e.deed] else [] := by
  by_cases h : e.thread = n <;> simp [deedsOf, h]

namespace Machine

/-- The machine after the thread `i` has changed to `t`, the table to `table` and the data to `data`. -/
def after (m : Machine K I σ α) (i : Nat) (table : LockTable K) (data : σ) (t : Thread K I α) : Machine K I σ α where
  table := table
  data := data
  threads := m.threads.set i t

/-- The threads after a step: the one that made it, and the others. -/
theorem threads_after {m : Machine K I σ α} {i : Nat} {t t' : Thread K I α} (ht : m.threads[i]? = some t)
    {table : LockTable K} {data : σ} {n : Nat} {x : Thread K I α} :
    (m.after i table data t').threads[n]? = some x ↔ n = i ∧ x = t' ∨ n ≠ i ∧ m.threads[n]? = some x := by
  have hlt : i < m.threads.length := (List.getElem?_eq_some_iff.1 ht).1
  by_cases h : n = i
  · subst h
    simp [after, hlt, eq_comm]
  · simp [after, h, Ne.symm h]

theorem threads_after_self {m : Machine K I σ α} {i : Nat} {t t' : Thread K I α} (ht : m.threads[i]? = some t)
    {table : LockTable K} {data : σ} : (m.after i table data t').threads[i]? = some t' :=
  (threads_after ht).2 (.inl ⟨rfl, rfl⟩)

theorem threads_after_of_ne {m : Machine K I σ α} {i n : Nat} (h : n ≠ i) {table : LockTable K} {data : σ}
    {t' : Thread K I α} : (m.after i table data t').threads[n]? = m.threads[n]? := by
  simp [after, Ne.symm h]

/-- The threads after one more has begun. -/
theorem threads_start {m : Machine K I σ α} {p : Program K I α} {n : Nat} {x : Thread K I α} :
    (m.start p).threads[n]? = some x ↔ m.threads[n]? = some x ∨ n = m.threads.length ∧ x = { program := p } := by
  rcases Nat.lt_trichotomy n m.threads.length with h | rfl | h
  · have hne : n ≠ m.threads.length := Nat.ne_of_lt h
    simp [start, List.getElem?_append_left h, hne]
  · simp [start, eq_comm]
  · have hne : n ≠ m.threads.length := Nat.ne_of_gt h
    have hnone : m.threads[n]? = none := List.getElem?_eq_none (Nat.le_of_lt h)
    have hnone' : (m.threads ++ [{ program := p }])[n]? = none :=
      List.getElem?_eq_none (by simp; omega)
    simp [start, hnone, hnone', hne]

variable [DecidableEq K]

/-- What happens in a move. Nothing happens when a thread begins, nor when it cannot move. -/
def happening? (service : Service I ε σ) (m : Machine K I σ α) : Move K I ε α → Option (Happening K I ε σ)
  | .start _ => none
  | .advance i env => do
    let t ← m.threads[i]?
    let d ← t.deed? service env m.table m.data
    return ⟨i, env, m.data, d⟩

/-- What happens in a series of moves, oldest first. -/
def history (service : Service I ε σ) : List (Move K I ε α) → Machine K I σ α → List (Happening K I ε σ)
  | [], _ => []
  | mv :: rest, m => (m.happening? service mv).toList ++ history service rest (m.move service mv)

/-- `m₀.Reaches service hist m`: a run from `m₀`, in which `hist` happens, leads to `m`. -/
inductive Reaches (service : Service I ε σ) (m₀ : Machine K I σ α) :
    List (Happening K I ε σ) → Machine K I σ α → Prop where
  | here : Reaches service m₀ [] m₀
  | start {hist m} (p : Program K I α) (before : Reaches service m₀ hist m) : Reaches service m₀ hist (m.start p)
  | step {hist m i env t d table data t'} (before : Reaches service m₀ hist m) (thread : m.threads[i]? = some t)
    (step : t.Step service env m.table m.data d table data t') :
    Reaches service m₀ (hist ++ [⟨i, env, m.data, d⟩]) (m.after i table data t')

/-- A move lets a thread begin, or it is a step of a thread, or it changes nothing. -/
theorem move_cases (service : Service I ε σ) (m : Machine K I σ α) (mv : Move K I ε α) :
    (∃ p, mv = .start p ∧ m.happening? service mv = none ∧ m.move service mv = m.start p) ∨
    (∃ i env t d table data t', mv = .advance i env ∧ m.threads[i]? = some t ∧
      t.Step service env m.table m.data d table data t' ∧
      m.happening? service mv = some ⟨i, env, m.data, d⟩ ∧ m.move service mv = m.after i table data t') ∨
    m.happening? service mv = none ∧ m.move service mv = m := by
  cases mv with
  | start p => exact .inl ⟨p, rfl, rfl, rfl⟩
  | advance i env =>
    right
    cases ht : m.threads[i]? with
    | none => exact .inr ⟨by simp [happening?, ht], by simp [move, advance?, ht]⟩
    | some t =>
      cases hs : t.step? service env m.table m.data with
      | none =>
        have hd : t.deed? service env m.table m.data = none := by
          rw [← Option.not_isSome_iff_eq_none, Thread.deed?_isSome, hs]; simp
        exact .inr ⟨by simp [happening?, ht, hd], by simp [move, advance?, ht, hs]⟩
      | some r =>
        obtain ⟨table, data, t'⟩ := r
        obtain ⟨d, hd, step⟩ := Thread.step_of_step? hs
        exact .inl ⟨i, env, t, d, table, data, t', rfl, ht, step, by simp [happening?, ht, hd],
          by simp [move, advance?, ht, hs, after]⟩

variable {service : Service I ε σ}

theorem history_append (moves moves' : List (Move K I ε α)) (m : Machine K I σ α) :
    history service (moves ++ moves') m = history service moves m ++ history service moves' (m.run service moves) := by
  induction moves generalizing m with
  | nil => rfl
  | cons mv rest ih => simp only [List.cons_append, history, ih, List.append_assoc]; rfl

theorem run_append (moves moves' : List (Move K I ε α)) (m : Machine K I σ α) :
    m.run service (moves ++ moves') = (m.run service moves).run service moves' := by
  simp [run]

/-- Every series of moves is a run with its history. -/
theorem reaches_run (service : Service I ε σ) (moves : List (Move K I ε α)) (m : Machine K I σ α) :
    m.Reaches service (m.history service moves) (m.run service moves) := by
  induction moves using List.reverseRecOn with
  | nil => exact .here
  | append_singleton moves mv ih =>
    rw [history_append, run_append]
    show Reaches service m (_ ++ (((m.run service moves).happening? service mv).toList ++ []))
      ((m.run service moves).move service mv)
    rw [List.append_nil]
    rcases (m.run service moves).move_cases service mv with
      ⟨p, -, hh, hm⟩ | ⟨i, env, t, d, table, data, t', -, ht, step, hh, hm⟩ | ⟨hh, hm⟩
    · rw [hh, hm, Option.toList_none, List.append_nil]
      exact .start p ih
    · rw [hh, hm]
      exact .step ih ht step
    · rw [hh, hm, Option.toList_none, List.append_nil]
      exact ih

theorem Reaches.ready_or_running {m₀ m : Machine K I σ α} {hist : List (Happening K I ε σ)}
    (run : m₀.Reaches service hist m) (h₀ : m₀.threads = []) :
    ∀ (n : Nat) (t : Thread K I α), m.threads[n]? = some t → t.stage = .ready ∨ t.answer? = none := by
  induction run with
  | here => simp [h₀]
  | start p _ ih =>
    intro n t ht
    rcases threads_start.1 ht with ht | ⟨-, rfl⟩
    · exact ih n t ht
    · exact .inl rfl
  | step _ thread step ih =>
    intro n t ht
    rcases (threads_after thread).1 ht with ⟨-, rfl⟩ | ⟨-, ht⟩
    · exact step.ready_or_running
    · exact ih n t ht

end Machine

end CorrelationBarrier
