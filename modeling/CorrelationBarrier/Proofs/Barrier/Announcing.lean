import CorrelationBarrier.Proofs.Barrier.Sequences

/-!
# Which message announces the size of a sequence

A rule for sequences reads the size from one message of the group. Where the messages of a group disagree about it, the
answer depends on which message this is: the oldest one that is still waiting, and once none is waiting, the one that came in
first. So the message that came in first decides until it is handed out, and then the next one takes over.

* `Group.announcer` — the message that announces the size; `getElem?_announcer` — its place among all messages of the group;
* `Barrier.Stop.DecidedBy` — what a visit comes to if a given message announces the size;
* `decided_by_oldest_waiting` — which message decides, in every run; `first_message_stops_announcing` — a run in which the
  one that came in first does not.
-/

namespace CorrelationBarrier

variable {K M α : Type}

namespace Group

/-- The message from which the size of a sequence is read. -/
def announcer (g : Group K M) : Option M := g.unmarked.head? <|> g.marked.head?

/-- The message that announces the size comes right after the marked ones, or first if there is no other. -/
theorem getElem?_announcer (g : Group K M) :
    (g.marked ++ g.unmarked)[if g.unmarked = [] then 0 else g.marked.length]? = g.announcer := by
  unfold announcer
  cases unmarked : g.unmarked with
  | nil => simp [List.head?_eq_getElem?]
  | cons m rest => simp

theorem exists_announcer {g : Group K M} (nonempty : g.marked ++ g.unmarked ≠ []) : ∃ first, g.announcer = some first := by
  unfold announcer
  cases unmarked : g.unmarked with
  | cons m rest => exact ⟨m, rfl⟩
  | nil =>
    cases marked : g.marked with
    | cons m rest => exact ⟨m, rfl⟩
    | nil =>
      rw [unmarked, marked] at nonempty
      exact absurd rfl nonempty

end Group

namespace ReleaseRule

variable {g : Group K (Message α)} {first : Message α} (announces : g.announcer = some first) (now : Instant)
include announces

theorem sequenceComplete_sized {expected : Nat} (sized : first.headers.sequenceSize = some expected) :
    sequenceComplete g now = .ok (decide (expected ≤ g.size)) := by
  unfold Group.announcer at announces
  simp only [sequenceComplete, announces, sized]

theorem sequenceComplete_unsized (unsized : first.headers.sequenceSize = none) :
    sequenceComplete g now = Outcome.failed (.missingHeader "sequence_size" first.id) := by
  unfold Group.announcer at announces
  simp only [sequenceComplete, announces, unsized]

end ReleaseRule

variable [DecidableEq K]

namespace Barrier

/-- What a visit to the group `g` comes to if the size of its sequence is announced by the message `first`. -/
inductive Stop.DecidedBy (c : Stop K (Message α)) (first : Message α) (g : Group K (Message α)) : Prop where
  | failed (unsized : first.headers.sequenceSize = none)
    (outcome : c.outcome = .error (.error (.release c.key (.missingHeader "sequence_size" first.id))))
  | held {expected} (sized : first.headers.sequenceSize = some expected) (few : g.size < expected)
    (outcome : c.outcome = .ok .held)
  | released {expected m rest} (sized : first.headers.sequenceSize = some expected) (complete : expected ≤ g.size)
    (unmarked : g.unmarked = m :: rest) (outcome : c.outcome = .ok (.released m))
  | drained {expected} (sized : first.headers.sequenceSize = some expected) (complete : expected ≤ g.size)
    (unmarked : g.unmarked = []) (outcome : c.outcome = .ok .drained)

variable {clock : Nat → Instant} {b b' : Barrier K (Message α)} {k : K} {g : Group K (Message α)} {first : Message α}

theorem decidedBy_of_visits {a : Outcome (BarrierError K) (Visit (Message α))}
    (visits : b.Visits (onTime clock) k a b') (rule : b.rules.release = .sequenceComplete)
    (group : b.store.group k = some g) (announces : g.announcer = some first) :
    (⟨k, b, a, b'⟩ : Stop K (Message α)).DecidedBy first g := by
  have judgedBy {judged : Outcome StrategyError Bool} (judges : ∀ now, ReleaseRule.sequenceComplete g now = judged) :
      a = Matches.verdict k g judged := Matches.verdict_of_visits group (fun now => by rw [rule, judges]) visits
  cases sized : first.headers.sequenceSize with
  | none => exact .failed sized (judgedBy fun now => ReleaseRule.sequenceComplete_unsized announces now sized)
  | some expected =>
    have verdict := judgedBy fun now => ReleaseRule.sequenceComplete_sized announces now sized
    by_cases complete : expected ≤ g.size
    · rw [decide_eq_true complete, Matches.verdict] at verdict
      cases unmarked : g.unmarked with
      | nil =>
        rw [unmarked] at verdict
        exact .drained sized complete unmarked verdict
      | cons m rest =>
        rw [unmarked] at verdict
        exact .released sized complete unmarked verdict
    · rw [decide_eq_false complete] at verdict
      exact .held sized (Nat.not_le.1 complete) verdict

/-- **The oldest waiting message decides.** Operations are served one after the other by a barrier that holds back sequences
and marks what it gives, and the messages may say about their sequence what they like, or nothing. A visit of a pull to a
group is decided by one of the messages that came in since the group began: the first of them that is not handed out, and
if all are handed out, the first of all. It fails if this one announces no size, and else lets the group go if it holds as
many messages. So the message that came in first decides as long as nothing is handed out, and again when all is. -/
theorem decided_by_oldest_waiting (correlate : Correlation K (Message α)) (policy : TokenPolicy) (capacity : Nat)
    (ops : List (Served K (Message α))) (clock : Nat → Instant) (order : WalkOrder K) :
    let rules : Rules K (Message α) := ⟨correlate, .sequenceComplete, .mark⟩
    let start : Barrier K (Message α) := new rules policy capacity
    ∀ c ∈ (start.after ops).tour (onTime clock) order, ∀ g, c.found.store.group c.key = some g →
      (start.after ops).store.group c.key = some g ∧
      ∃ pre post first, ops = pre ++ post ∧ start.Life c.key pre post ∧
        let accepted := acceptedUnder rules c.key ((start.after pre).record post)
        g.marked = releasedUnder rules c.key ((start.after pre).record post) ∧ g.marked ++ g.unmarked = accepted ∧
        accepted[if g.unmarked = [] then 0 else g.marked.length]? = some first ∧ c.DecidedBy first g := by
  intro rules start c mem g found
  obtain ⟨visits, same, group⟩ := mem_tour mem
  have rule : c.found.rules.release = .sequenceComplete := by
    rw [same, rules_after]
    rfl
  have here : (start.after ops).store.group c.key = some g := group.symm.trans found
  obtain ⟨pre, post, split, life, marked, content, nonempty⟩ := life_of_group rfl policy capacity ops here
  obtain ⟨first, announces⟩ := g.exists_announcer nonempty
  refine ⟨here, pre, post, first, split, life, marked, content, ?_, decidedBy_of_visits visits rule found announces⟩
  rw [← content, g.getElem?_announcer, announces]

/-- Once a message that announces one message is handed out, the next one decides, which announces three. -/
theorem decided_by_oldest_waiting_of_two_sizes :
    let first : Message Nat := (Message.new ⟨0, 1⟩ 7).withSequence 1 1
    let second : Message Nat := (Message.new ⟨0, 2⟩ 7).withSequence 2 3
    let pull : Served Nat (Message Nat) := (fun n => n, .pull .asListed)
    let ops : List (Served Nat (Message Nat)) := [(fun n => n, .accept first), (fun n => n, .accept second), pull]
    let b := (new ⟨fun m => .ok m.payload, .sequenceComplete, .mark⟩ .validated 0 : Barrier Nat (Message Nat)).after ops
    let visits := b.tour (onTime fun n => n) .asListed
    visits.map (fun c => (c.found.store.group c.key).map Group.size) = [some 2] ∧
      ∀ c ∈ visits, ∀ g, c.found.store.group c.key = some g →
        ∃ decider ∈ g.marked ++ g.unmarked, c.DecidedBy decider g := by
  intro first second pull ops b visits
  refine ⟨by decide +kernel, fun c mem g found => ?_⟩
  obtain ⟨-, pre, post, decider, -, -, -, content, place, decided⟩ :=
    decided_by_oldest_waiting (fun m => .ok m.payload) .validated 0 ops (fun n => n) .asListed c mem g found
  exact ⟨decider, content ▸ List.mem_of_getElem? place, decided⟩

/-- The message that came in first stops to announce the size once it is handed out. A group of two has given its first
message, which announces one. The next pull fails, for it asks the second message, which announces nothing. -/
theorem first_message_stops_announcing :
    let first : Message Nat := (Message.new ⟨0, 1⟩ 7).withSequence 1 1
    let second : Message Nat := Message.new ⟨0, 2⟩ 7
    let pull : Served Nat (Message Nat) := (fun n => n, .pull .asListed)
    let ops : List (Served Nat (Message Nat)) := [(fun n => n, .accept first), (fun n => n, .accept second), pull]
    let b := (new ⟨fun m => .ok m.payload, .sequenceComplete, .mark⟩ .validated 0 : Barrier Nat (Message Nat)).after ops
    (b.pullInTurn (onTime fun n => n) .asListed).1.map (Option.map Message.id) =
        .error (.error (.release 7 (.missingHeader "sequence_size" second.id))) ∧
      ¬ ∀ c ∈ b.tour (onTime fun n => n) .asListed, ∀ g, c.found.store.group c.key = some g →
        ∀ oldest ∈ (g.marked ++ g.unmarked).head?, c.DecidedBy oldest g := by
  intro first second pull ops b
  refine ⟨by decide +kernel, fun decided => ?_⟩
  have seen : (b.tour (onTime fun n => n) .asListed).map (fun c => (c.outcome.isOk,
      (c.found.store.group c.key).map fun g => (g.marked ++ g.unmarked).map (·.headers.sequenceSize))) =
      [(false, some [some 1, none])] := by decide +kernel
  obtain ⟨c, only, view⟩ := List.map_eq_singleton_iff.1 seen
  obtain ⟨fails, group⟩ := Prod.mk.inj view
  obtain ⟨g, found, sizes⟩ := Option.map_eq_some_iff.1 group
  obtain ⟨oldest, rest, messages, size, -⟩ := List.map_eq_cons_iff.1 sizes
  cases decided c (only ▸ List.mem_singleton_self c) g found oldest (by rw [messages]; rfl) with
  | failed unsized =>
    rw [size] at unsized
    cases unsized
  | held _ _ ok | released _ _ _ ok | drained _ _ _ ok =>
    rw [ok] at fails
    cases fails

end Barrier

end CorrelationBarrier
