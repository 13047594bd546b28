import CorrelationBarrier.Proofs.Alone
import CorrelationBarrier.Proofs.Barrier.Course

/-!
# Waiting in a barrier

The operations of a barrier are flat, whatever the store answers and the rules say: a section is opened only when the last
one is closed, and every way out of it closes it. So no threads of a barrier ever wait for each other in a circle.

* `Act.Conforms.flat`, `Act.flat_ofOperation` — programs that keep to the phases of an operation are flat;
* `Barrier.no_deadlock` — what follows for threads that run operations, with the locks of the table and of the store;
* `Barrier.idle_of_quiet` — once all operations have answered, nobody is busy with the table;
* `Barrier.runs_alone` — then the next one, while no other is under way, comes to what `Barrier.runAct` says.
-/

namespace CorrelationBarrier

variable {K M α : Type}

/-- No section is open where an operation ends. -/
theorem Progress.Ends.stay?_eq_none {rules : Rules K M} {op : Operation K M} {φ : Progress K M} {a : Answer K M}
    (h : φ.Ends rules op a) : φ.stay? = none := by
  cases φ with
  | idle | left | counted | finished => rfl
  | _ => cases h

namespace Act

variable {rules : Rules K M} {policy : TokenPolicy} {op : Operation K M}

/-- A program that does only what its phases allow, and ends with no section open, is flat. -/
theorem Conforms.flat {Q : Progress K M → α → Prop} (ends : ∀ φ a, Q φ a → φ.stay? = none) {p : Act K M α}
    {φ : Progress K M} (h : Conforms rules policy op Q p φ) : p.Flat φ.stay?.isSome := by
  induction p generalizing φ with
  | done a => simp [Program.Flat, ends φ a h]
  | acquire k next ih => cases (h 0).1
  | look next ih =>
    intro t
    obtain ⟨allowed, rest⟩ := h t
    cases allowed with
    | looked => exact ih t rest
  | enter k next ih =>
    obtain ⟨allowed, -, -, -, rest⟩ := h 0
    cases allowed with
    | sought => exact ⟨rfl, ih rest⟩
  | leave next ih =>
    obtain ⟨allowed, rest⟩ := h
    cases allowed with
    | @closed _ u fate =>
      have outside : (Progress.afterClose u).stay?.isSome = false := by rw [Progress.stay?_afterClose]; rfl
      exact ⟨by cases fate <;> rfl, outside ▸ ih rest⟩
  | forget depth next ih =>
    obtain ⟨allowed, rest⟩ := h
    cases allowed with
    | @retired held u =>
      have inside : (Progress.afterForget held u).stay?.isSome = true := by rw [Progress.stay?_afterForget]; rfl
      exact ⟨rfl, fun r => inside ▸ ih r (rest r).2⟩
  | isCurrent depth next ih => cases (h true).1
  | call c next ih =>
    intro r
    rw [← Progress.stay?_afterCall h.1 r]
    exact ih r (h.2 r)

/-- Operations are flat. -/
theorem flat_ofOperation (rules : Rules K M) (policy : TokenPolicy) (op : Operation K M) :
    (ofOperation rules policy op).Flat false :=
  (conforms_ofOperation rules policy op).flat fun _ _ => Progress.Ends.stay?_eq_none

end Act

namespace Barrier

variable [DecidableEq K] {ε σ : Type}

/-- A thread begins an operation, or one that has begun makes a step. -/
def moveWith (rules : Rules K M) (policy : TokenPolicy) :
    Operation K M ⊕ Nat × ε → Move K (Request.interface K M) ε (Answer K M)
  | .inl op => .start (Act.ofOperation rules policy op)
  | .inr (n, env) => .advance n env

/-- **No deadlock, no leaked token.** Any number of threads run operations in any interleaving, under either policy, with
any rules, and with shared data that may answer any call as they like, failures and panics included; the table has a lock,
and so have the data, for whichever calls need it. In every state:

* each thread holds at most one token;
* a thread that has fetched a token and does not hold it yet holds no other, and while it waits for it, no lock either;
* a thread that is not inside of a section nor on the way into one holds no token, and neither does one that has ended,
  whatever its answer;
* every token that is held is held by a thread that has not ended, and every lock by one thread at most;
* as long as some thread has not ended, or holds a lock, there is a thread that can make a step. -/
theorem no_deadlock (rules : Rules K M) (policy : TokenPolicy) (service : Service (Request.interface K M) ε σ)
    (guarded : Request K M → Bool) (data : σ) (turns : List (Operation K M ⊕ Nat × ε)) :
    let start : Guarded K (Request.interface K M) σ (Answer K M) := { machine := { table := .new policy, data := data } }
    let g := start.run service guarded (turns.map (moveWith rules policy))
    let hist := start.history service guarded (turns.map (moveWith rules policy))
    (∀ (n : Nat) t, g.machine.threads[n]? = some t →
      t.tokens.length ≤ 1 ∧
      (∀ i, t.stage = .fetched i →
        t.tokens = [] ∧ ∀ env, g.advance? service guarded env n = none → ∀ l, ¬ g.Holds n l) ∧
      (isInside (deedsOf n hist) = false → t.tokens = []) ∧
      (∀ a, t.answer? = some a → t.tokens = [])) ∧
    (∀ i, (g.machine.table.token i).held = true →
      ∃ (n : Nat) (t : _), g.machine.threads[n]? = some t ∧ i ∈ t.tokens ∧ t.answer? = none) ∧
    (∀ n n' l, g.Holds n l → g.Holds n' l → n = n') ∧
    ((∃ (n : Nat) (t : _), g.machine.threads[n]? = some t ∧ (t.answer? = none ∨ ∃ l, g.Holds n l)) →
      ∃ n, ∀ env, (g.advance? service guarded env n).isSome) := by
  intro start g hist
  have flat : ∀ p, .start p ∈ turns.map (moveWith rules policy) → p.Flat false := by
    intro p hp
    obtain ⟨turn, -, same⟩ := List.mem_map.1 hp
    cases turn with
    | inl op =>
      cases same
      exact Act.flat_ofOperation rules policy op
    | inr => cases same
  have orderly : g.Orderly guarded hist := (Guarded.orderly_new guarded policy data).run flat
  refine ⟨fun n t ht => ?_, fun i held => ?_, orderly.apart, fun ⟨n, t, ht, unfinished⟩ => orderly.progress ht unfinished⟩
  · have level := orderly.machine.level n t ht
    refine ⟨level.tokens_length, fun i hs => ⟨level.tokens_of_fetched hs, ?_⟩, level.tokens_of_outside, ?_⟩
    · intro env waits
      exact orderly.not_holds_of_waits ht hs waits
    · intro a answered
      exact level.tokens_of_answer answered
  · obtain ⟨n, t, ht, hi⟩ := orderly.machine.holders i held
    refine ⟨n, t, ht, hi, Option.eq_none_iff_forall_not_mem.2 fun a answered => ?_⟩
    rw [(orderly.machine.level n t ht).tokens_of_answer answered] at hi
    cases hi

/-! ## operations on their own -/

variable [BEq M]

/-- Once all operations of a run have answered, nobody is busy with the table. -/
theorem idle_of_quiet (rules : Rules K M) (policy : TokenPolicy) (capacity : Nat) (turns : List (Turn K M))
    (quiet : ∀ t ∈ ((Barrier.new rules policy capacity).play turns).threads, t.answer?.isSome) :
    ((Barrier.new rules policy capacity).play turns).table.Idle := by
  refine ((Machine.orderly_new policy _).run fun p hp => ?_).idle quiet
  obtain ⟨turn, -, same⟩ := List.mem_map.1 hp
  cases turn with
  | start op =>
    cases same
    exact Act.flat_ofOperation ..
  | advance => cases same

/-- **Operations on their own.** While nobody is busy with the table, an operation that is the only one to move comes to
its end, with the answer and the barrier that `Barrier.runAct` says, and leaves nobody busy with the table. -/
theorem runs_alone (b : Barrier K M) (idle : b.table.Idle) (env : Surroundings) (op : Operation K M) :
    let r := b.runAct env (b.actOf op)
    (∃ steps, b.play (.start op :: List.replicate steps (.advance 0 env)) =
      { r.2.toThreads with threads := [{ program := .done r.1 }] }) ∧ r.2.table.Idle := by
  obtain ⟨⟨steps, reached⟩, idle⟩ := Machine.runs_alone Shared.service env b.toThreads idle
    (Act.flat_ofOperation b.rules b.table.policy op)
  refine ⟨⟨steps, ?_⟩, idle⟩
  rw [play, List.map_cons, List.map_replicate]
  exact reached

end Barrier

end CorrelationBarrier
