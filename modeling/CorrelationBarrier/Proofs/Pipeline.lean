import CorrelationBarrier.Proofs.Barrier.Ledger
import CorrelationBarrier.Proofs.Poller.Delivery

/-!
# A poll loop over a barrier

A poll loop whose source is a barrier, on which any number of other threads accept messages and pull for themselves. A pull
of the loop is a thread of its own, which makes its steps among those of all others.

* `Pipeline`, `Pipeline.turn`, `Pipeline.play` — the loop with the turns of the barrier and the threads of its pulls;
* `takenAmong` — what certain threads have taken out of the barrier;
* `Barrier.silent_of_answered` — a thread that has answered does nothing any more;
* `Pipeline.Sound` — what the pulls of the loop have taken out is what its source came back with, kept by every turn;
* `Pipeline.exactly_once_end_to_end` — from the messages that were added to those in the channel.
-/

namespace CorrelationBarrier

variable {K M : Type}

/-- A poll loop over a barrier. -/
structure Pipeline (K M : Type) where
  relay : Relay M
  /-- The turns of the barrier so far. -/
  turns : List (Turn K M) := []
  /-- The threads of the pulls that have come back, oldest first. -/
  pulls : List Nat := []
  /-- The thread of the pull that is under way. -/
  current : Option Nat := none

/-- What may come next. -/
inductive PipelineTurn (K M : Type) where
  /-- A turn of the barrier: another operation starts, or a thread makes a step. -/
  | barrier (turn : Turn K M)
  | loop (turn : LoopTurn)
  /-- The pull for which the loop holds a slot starts in a thread of its own. -/
  | depart (order : WalkOrder K)
  /-- The loop gets the answer of its pull. -/
  | comeBack

namespace Pipeline

variable [DecidableEq K] [BEq M]

/-- A turn; one that is not possible changes nothing. The loop is told of a failure in words. -/
def turn (b : Barrier K M) (wording : BarrierError K → String) (s : Pipeline K M) : PipelineTurn K M → Pipeline K M
  | .barrier t => { s with turns := s.turns ++ [t] }
  | .loop t => { s with relay := s.relay.turn (.loop t) }
  | .depart order =>
    match s.relay.errand, s.relay.poller.phase with
    | .unsent, .pulling _ _ =>
      { s with
        relay := s.relay.turn .depart
        turns := s.turns ++ [.start (.pull order)]
        current := some (Barrier.operations s.turns).length }
    | _, _ => s
  | .comeBack =>
    match s.current with
    | none => s
    | some n =>
      match (b.play s.turns).answer? n with
      | some (.pulled outcome) =>
        { s with
          relay := s.relay.turn (.comeBack (outcome.mapError (Failure.map wording)))
          pulls := s.pulls ++ [n]
          current := none }
      | _ => s

/-- Makes turns one after the other. -/
def play (b : Barrier K M) (wording : BarrierError K → String) (s : Pipeline K M) (turns : List (PipelineTurn K M)) :
    Pipeline K M :=
  turns.foldl (turn b wording) s

end Pipeline

/-! ## what certain threads have taken out -/

section Among

variable [DecidableEq K] [BEq M]

/-- The messages that certain threads have taken out, in order. -/
def takenAmong (threads : List Nat) (hist : List (Occurrence K M)) : List M :=
  ((hist.filter (·.thread ∈ threads)).filterMap (·.taken?)).map (·.2)

theorem takenAmong_append (threads : List Nat) (hist hist' : List (Occurrence K M)) :
    takenAmong threads (hist ++ hist') = takenAmong threads hist ++ takenAmong threads hist' := by
  simp [takenAmong]

theorem takenAmong_congr {threads threads' : List Nat} {hist : List (Occurrence K M)}
    (same : ∀ e ∈ hist, e.thread ∈ threads ↔ e.thread ∈ threads') :
    takenAmong threads hist = takenAmong threads' hist := by
  rw [takenAmong, takenAmong, List.filter_congr fun e he => decide_eq_decide.2 (same e he)]

theorem takenAmong_one (n : Nat) (hist : List (Occurrence K M)) : takenAmong [n] hist = takenBy n hist := by
  rw [takenAmong, takenBy, List.filter_congr fun e _ => decide_eq_decide.2 List.mem_singleton]

theorem takenAmong_nil (hist : List (Occurrence K M)) : takenAmong [] hist = [] := by
  simp [takenAmong]

end Among

namespace Barrier

variable [DecidableEq K] [BEq M] (b : Barrier K M)

theorem chronicle_append (turns rest : List (Turn K M)) :
    ∃ later, b.chronicle (turns ++ rest) = b.chronicle turns ++ later := by
  rw [chronicle, List.map_append, Machine.history_append]
  exact ⟨_, rfl⟩

/-- A thread that has answered does nothing any more. -/
theorem silent_of_answered {turns : List (Turn K M)} {n : Nat} {a : Answer K M} (h : (b.play turns).answer? n = some a)
    (turn : Turn K M) : (b.play (turns ++ [turn])).answer? n = some a ∧
      ∀ e ∈ ((b.play turns).happening? Shared.service (b.moveOf turn)).toList, e.thread ≠ n := by
  obtain ⟨t, ht, ha⟩ := Option.bind_eq_some_iff.1 h
  rw [b.play_concat]
  rcases (b.play turns).move_cases Shared.service (b.moveOf turn) with
    ⟨p, -, hh, hm⟩ | ⟨i, env, t₀, d, table, data, t', -, ht₀, step, hh, hm⟩ | ⟨hh, hm⟩ <;> rw [hh, hm]
  · refine ⟨?_, nofun⟩
    rw [Machine.answer?, Machine.threads_start.2 (.inl ht)]
    exact ha
  · have other : n ≠ i := by
      rintro rfl
      rw [ht] at ht₀
      cases ht₀
      rw [step.running] at ha
      cases ha
    refine ⟨?_, fun e he => ?_⟩
    · rw [Machine.answer?, Machine.threads_after_of_ne other, ht]
      exact ha
    · rw [Option.toList_some, List.mem_singleton] at he
      rw [he]
      exact Ne.symm other
  · exact ⟨h, nofun⟩

/-- A thread that has answered has taken out what it has answered with. -/
theorem Course.takenBy_of_answer [ReflBEq M] {b : Barrier K M} {ops : List (Operation K M)}
    {hist : List (Occurrence K M)} {m : Threads K M} (course : b.Course ops hist m) (fresh : b.table = .new .validated)
    {n : Nat} {a : Answer K M} (h : m.answer? n = some a) : takenBy n hist = (handedOut (some a)).toList := by
  obtain ⟨t, ht, ha⟩ := Option.bind_eq_some_iff.1 h
  obtain ⟨op, hop⟩ := course.operation_of_thread ht
  rw [course.takenBy_eq fresh]
  exact congrArg _ (Progress.message?_of_ends (course.ends ht hop ha).2)

/-- What an occurrence takes out is all that its thread takes out, and what the thread answers with or can only answer
with. -/
theorem Course.returns_of_taken [ReflBEq M] {b : Barrier K M} {ops : List (Operation K M)} {hist : List (Occurrence K M)}
    {m : Threads K M} (course : b.Course ops hist m) (fresh : b.table = .new .validated) {e : Occurrence K M}
    (he : e ∈ hist) {k : K} {x : M} (took : e.taken? = some (k, x)) :
    takenBy e.thread hist = [x] ∧ ∃ t, m.threads[e.thread]? = some t ∧ Act.Returns x t.program := by
  have begun : e.thread < ops.length := course.thread_lt e he
  obtain ⟨op, hop⟩ : ∃ op, ops[e.thread]? = some op := ⟨_, List.getElem?_eq_getElem begun⟩
  obtain ⟨t, ht⟩ : ∃ t, m.threads[e.thread]? = some t :=
    ⟨_, List.getElem?_eq_getElem (course.length_threads.symm ▸ begun)⟩
  have mem : x ∈ takenBy e.thread hist :=
    List.mem_map.2 ⟨(k, x), List.mem_filterMap.2 ⟨e, List.mem_filter.2 ⟨he, decide_eq_true rfl⟩, took⟩, rfl⟩
  rw [course.takenBy_eq fresh] at mem ⊢
  have message := Option.mem_toList.1 mem
  exact ⟨congrArg Option.toList message, t, ht, (course.kept ht hop).returns message⟩

end Barrier

/-! ## the pulls of the loop -/

namespace Relay

variable {r : Relay M} {start : Channel M}

theorem Sound.turn (sound : r.Sound start) (t : RelayTurn M) : (r.turn t).Sound start := by
  rcases step_of_turn sound.apt t with same | step
  · rwa [same]
  · exact step.sound sound

/-- Only the source comes back with messages, and only with it a pull begins or ends. -/
theorem loopTurn_kept (r : Relay M) (t : LoopTurn) :
    (r.loopTurn t).log.filterMap RelayDeed.brought? = r.log.filterMap RelayDeed.brought? ∧
      ((r.loopTurn t).errand = .away ↔ r.errand = .away) := by
  cases t with
  | goOn now =>
    simp only [loopTurn]
    split
    · exact ⟨rfl, .rfl⟩
    · next p _ =>
      have own : (p.phase.deed? (M := M)).toList.filterMap RelayDeed.brought? = [] := by cases p.phase <;> rfl
      exact ⟨by rw [List.filterMap_append, own, List.append_nil], .rfl⟩
  | takeIn now =>
    simp only [loopTurn]
    split
    · next outcome back =>
      have own : [RelayDeed.ofOutcome outcome].filterMap RelayDeed.brought? = [] := by
        rcases outcome with _ | _ | _ <;> rfl
      exact ⟨by rw [List.filterMap_append, own, List.append_nil], by simp [back]⟩
    · exact ⟨rfl, .rfl⟩
  | receive =>
    simp only [loopTurn]
    split
    · exact ⟨rfl, .rfl⟩
    · exact ⟨by simp [List.filterMap_cons, RelayDeed.brought?], .rfl⟩
  | hangUp | cancel => exact ⟨by simp [loopTurn, List.filterMap_cons, RelayDeed.brought?], .rfl⟩

end Relay

namespace Pipeline

variable [DecidableEq K] [BEq M] {b : Barrier K M} {wording : BarrierError K → String} {start : Channel M}
  {s : Pipeline K M}

/-- What the state of a pipeline says about the pulls of its loop. -/
structure Sound (s : Pipeline K M) (b : Barrier K M) (start : Channel M) : Prop where
  relay : s.relay.Sound start
  away : s.relay.errand = .away ↔ s.current.isSome = true
  past : ∀ n ∈ s.pulls, ∃ outcome, (b.play s.turns).answer? n = some (.pulled outcome)
  /-- The source has come back with what the pulls have taken out, apart from the one under way. -/
  own : takenAmong (s.pulls ++ s.current.toList) (b.chronicle s.turns) =
    s.relay.log.filterMap RelayDeed.brought? ++ takenAmong s.current.toList (b.chronicle s.turns)

theorem Sound.barrier (sound : s.Sound b start) (t : Turn K M) : (s.turn b wording (.barrier t)).Sound b start where
  relay := sound.relay
  away := sound.away
  past n hn := by
    obtain ⟨outcome, h⟩ := sound.past n hn
    exact ⟨outcome, (b.silent_of_answered h t).1⟩
  own := by
    simp only [turn]
    have own : takenAmong (s.pulls ++ s.current.toList)
        ((b.play s.turns).happening? Shared.service (b.moveOf t)).toList =
          takenAmong s.current.toList ((b.play s.turns).happening? Shared.service (b.moveOf t)).toList := by
      refine takenAmong_congr fun e he => ?_
      have silent : e.thread ∉ s.pulls := fun mem => by
        obtain ⟨outcome, h⟩ := sound.past e.thread mem
        exact (b.silent_of_answered h t).2 e he rfl
      simp [silent]
    rw [b.chronicle_concat, takenAmong_append, takenAmong_append, sound.own, own, List.append_assoc]

theorem Sound.loop (sound : s.Sound b start) (t : LoopTurn) : (s.turn b wording (.loop t)).Sound b start where
  relay := sound.relay.turn (.loop t)
  away := (Relay.loopTurn_kept s.relay t).2.trans sound.away
  past := sound.past
  own := sound.own.trans (congrArg (· ++ _) (Relay.loopTurn_kept s.relay t).1.symm)

/-- Nobody has done anything in the thread in which a pull starts. -/
theorem Sound.depart (sound : s.Sound b start) (order : WalkOrder K) :
    (s.turn b wording (.depart order)).Sound b start := by
  simp only [turn]
  split
  · next left pulled home phase =>
    have idle : s.current = none := by simpa [home] using sound.away
    have departed : s.relay.turn .depart = { s.relay with errand := .away, log := s.relay.log ++ [.departed] } := by
      simp [Relay.turn, home, phase]
    have quiet : b.chronicle (s.turns ++ [.start (.pull order)]) = b.chronicle s.turns := by
      rw [b.chronicle_concat]
      exact List.append_nil _
    have fresh (e : Occurrence K M) (he : e ∈ b.chronicle s.turns) : e.thread ≠ (Barrier.operations s.turns).length :=
      Nat.ne_of_lt ((b.course_play s.turns).thread_lt e he)
    have before : takenAmong (s.pulls ++ [(Barrier.operations s.turns).length]) (b.chronicle s.turns) =
        takenAmong s.pulls (b.chronicle s.turns) := takenAmong_congr fun e he => by simp [fresh e he]
    have nothing : takenAmong [(Barrier.operations s.turns).length] (b.chronicle s.turns) =
        takenAmong [] (b.chronicle s.turns) := takenAmong_congr fun e he => by simp [fresh e he]
    constructor
    case relay => exact sound.relay.turn .depart
    case away => simp [departed]
    case past =>
      intro n hn
      obtain ⟨outcome, h⟩ := sound.past n hn
      exact ⟨outcome, (b.silent_of_answered h _).1⟩
    case own =>
      have own := sound.own
      rw [idle, Option.toList_none, List.append_nil] at own
      rw [quiet, departed, Option.toList_some, before, nothing, own]
      simp [List.filterMap_cons, RelayDeed.brought?]
  · exact sound

/-- A pull comes back with what it has taken out. -/
theorem Sound.comeBack [ReflBEq M] (fresh : b.table = .new .validated) (sound : s.Sound b start) :
    (s.turn b wording .comeBack).Sound b start := by
  simp only [turn]
  split
  · exact sound
  · next n current =>
    split
    · next outcome answer =>
      have away : s.relay.errand = .away := by simpa [current] using sound.away
      have taken : takenAmong [n] (b.chronicle s.turns) =
          [RelayDeed.returned (outcome.mapError (Failure.map wording))].filterMap RelayDeed.brought? := by
        rw [takenAmong_one, (b.course_play s.turns).takenBy_of_answer fresh answer]
        rcases outcome with _ | _ | _ <;> rfl
      constructor
      case relay => exact sound.relay.turn (.comeBack _)
      case away => simp [Relay.turn, away]
      case past =>
        intro i hi
        rcases List.mem_append.1 hi with hi | hi
        · exact sound.past i hi
        · rw [List.mem_singleton.1 hi]
          exact ⟨outcome, answer⟩
      case own =>
        have own := sound.own
        rw [current, Option.toList_some, taken] at own
        simpa [Relay.turn, away, takenAmong_nil] using own
    · exact sound

theorem Sound.play [ReflBEq M] (fresh : b.table = .new .validated) (sound : s.Sound b start)
    (turns : List (PipelineTurn K M)) : (s.play b wording turns).Sound b start := by
  induction turns using List.reverseRecOn with
  | nil => exact sound
  | append_singleton turns t ih =>
    rw [Pipeline.play, List.foldl_concat]
    cases t with
    | barrier t => exact ih.barrier t
    | loop t => exact ih.loop t
    | depart order => exact ih.depart order
    | comeBack => exact ih.comeBack fresh

theorem sound_start {p : Poller M} (relay : ({ poller := p } : Relay M).Sound start) (before : List (Turn K M)) :
    ({ relay := { poller := p }, turns := before } : Pipeline K M).Sound b start where
  relay := relay
  away := by simp
  past := nofun
  own := rfl

end Pipeline

/-- From one state of a run to a later one, what was unmarked under a key and what is added are what is taken out and what is
then unmarked. -/
theorem Barrier.ledger_onward [DecidableEq K] [BEq M] [ReflBEq M] {b : Barrier K M} (fresh : b.table = .new .validated)
    (bare : ∀ k, b.shared.store.group k = none) (turns rest : List (Turn K M)) (k : K) :
    ∃ later, b.chronicle (turns ++ rest) = b.chronicle turns ++ later ∧
      (b.play turns).data.store.unmarked k ++ added k later =
        taken k later ++ (b.play (turns ++ rest)).data.store.unmarked k := by
  obtain ⟨later, split⟩ := b.chronicle_append turns rest
  refine ⟨later, split, ?_⟩
  have now := (b.course_play turns).ledger fresh bare k
  have onward := (b.course_play (turns ++ rest)).ledger fresh bare k
  rw [split, added, List.filterMap_append, underKey_append, taken, List.filterMap_append, underKey_append] at onward
  rw [added, taken] at now
  rw [now, List.append_assoc, List.append_assoc] at onward
  exact List.append_cancel_left onward

namespace Pipeline

variable [DecidableEq K] [BEq M]

/-- **Exactly once, end to end.** A poll loop with valid settings over a validated barrier with any rules, on a channel of
any capacity with messages in it, and any series of turns of the loop, its receiver, whoever cancels it, its pulls and any
number of other threads, of which some may have come before. In every state what was added under a key is, in order, what
was taken out followed by what is unmarked; and what was taken out is all that its thread takes out, and what that thread
has answered with or can only answer with. Between pulls, and so when the loop has ended, none of its own pulls is under
way, all have answered, and what they have taken out is in order what it has sent. As long as the receiver listens, what it
has received followed by what is in the channel is what was there first and what was sent. Whatever comes after, what is then
taken out of a key begins with what is unmarked now. -/
theorem exactly_once_end_to_end [ReflBEq M] (rules : Rules K M) (capacity : Nat) (wording : BarrierError K → String)
    {settings : PollerSettings} {slots : Nat} {prefill : List M} {p : Poller M} (fits : prefill.length ≤ slots)
    (accepted : Poller.new settings { capacity := slots, buffer := prefill } = .ok p) (before : List (Turn K M))
    (turns : List (PipelineTurn K M)) :
    let b := Barrier.new rules .validated capacity
    let s := ({ relay := { poller := p }, turns := before } : Pipeline K M).play b wording turns
    let m := b.play s.turns
    let hist := b.chronicle s.turns
    (∀ k, added k hist = taken k hist ++ m.data.store.unmarked k) ∧
    (∀ e ∈ hist, ∀ k x, e.taken? = some (k, x) →
      takenBy e.thread hist = [x] ∧ ∃ t, m.threads[e.thread]? = some t ∧ Act.Returns x t.program ∧
        ∀ a, t.answer? = some a → a = .pulled (.ok (some x))) ∧
    (s.relay.poller.hasStopped = true → s.relay.errand = .unsent) ∧
    (s.relay.errand = .unsent → s.current = none ∧
      (∀ n ∈ s.pulls, ∃ outcome, m.answer? n = some (.pulled outcome)) ∧
      takenAmong s.pulls hist = s.relay.log.filterMap RelayDeed.sent? ∧
      s.relay.poller.channel = s.relay.log.foldl Channel.after { capacity := slots, buffer := prefill }) ∧
    (s.relay.poller.channel.listening = true →
      s.relay.log.filterMap RelayDeed.received? ++ s.relay.poller.channel.buffer =
        prefill ++ s.relay.log.filterMap RelayDeed.sent?) ∧
    ∀ rest k, ∃ later, b.chronicle (s.turns ++ rest) = hist ++ later ∧
      m.data.store.unmarked k ++ added k later =
        taken k later ++ (b.play (s.turns ++ rest)).data.store.unmarked k := by
  intro b s m hist
  obtain ⟨rfl, -⟩ := Poller.new_eq_ok_iff.1 accepted
  have sound : s.Sound b { capacity := slots, buffer := prefill } :=
    (sound_start (Relay.sound_start rfl rfl rfl fits) before).play rfl turns
  have course : b.Course (Barrier.operations s.turns) hist m := b.course_play s.turns
  refine ⟨course.ledger rfl fun _ => rfl, fun e he k x took => ?_, sound.relay.apt.home, fun home => ?_,
    sound.relay.arrived, Barrier.ledger_onward rfl (fun _ => rfl) s.turns⟩
  · obtain ⟨all, t, ht, returns⟩ := course.returns_of_taken rfl he took
    refine ⟨all, t, ht, returns, fun a ha => ?_⟩
    cases hp : t.program <;> rw [Thread.answer?, hp] at ha <;> cases ha
    rwa [hp] at returns
  · have idle : s.current = none := by simpa [home] using sound.away
    have own := sound.own
    rw [sound.relay.brought, home, idle, Option.toList_none, List.append_nil, takenAmong_nil, List.append_nil] at own
    exact ⟨idle, sound.past, own.trans (List.append_nil _), sound.relay.channel⟩

/-- Two messages of one key come in. While a pull of the loop is on its way to take out the first, another thread takes it
out; the pull comes back with the second, although the loop has been cancelled meanwhile, and it stands in the channel behind
the message that was there. -/
theorem exactly_once_beside_another_puller :
    let b : Barrier Nat Nat := Barrier.new ⟨fun m => .ok (m % 2), .always, .mark⟩ .validated 0
    let p : Poller Nat := { settings := {}, channel := { capacity := 2, buffer := [5] } }
    let step (n : Nat) : PipelineTurn Nat Nat := .barrier (.advance n {})
    let turns : List (PipelineTurn Nat Nat) := [[.barrier (.start (.accept 7))], List.replicate 12 (step 0),
      [.barrier (.start (.accept 9))], List.replicate 12 (step 1),
      [.loop (.goOn 0), .loop (.goOn 0), .depart .asListed, step 2, .barrier (.start (.pull .asListed))],
      List.replicate 20 (step 3), [.loop .cancel], List.replicate 20 (step 2),
      [.comeBack, .loop (.takeIn 0), .loop (.goOn 0), .loop (.goOn 0)]].flatten
    let s : Pipeline Nat Nat := { relay := { poller := p } }
    [5].length ≤ 2 ∧ Poller.new {} { capacity := 2, buffer := [5] } = .ok p ∧
      (s.play b (fun _ => "") turns).relay.poller.hasStopped = true ∧
      (s.play b (fun _ => "") turns).relay.log.filterMap RelayDeed.sent? = [9] ∧
      takenAmong (s.play b (fun _ => "") turns).pulls (b.chronicle (s.play b (fun _ => "") turns).turns) = [9] ∧
      takenBy 3 (b.chronicle (s.play b (fun _ => "") turns).turns) = [7] ∧
      (s.play b (fun _ => "") turns).relay.poller.channel.buffer = [5, 9] := by
  intro b p step turns s
  have fits : [5].length ≤ 2 := by decide
  have accepted : Poller.new {} { capacity := 2, buffer := [5] } = .ok p :=
    Poller.new_eq_ok_iff.2 ⟨rfl, by decide, by decide⟩
  have stopped : (s.play b (fun _ => "") turns).relay.poller.hasStopped = true := by decide +kernel
  have sent : (s.play b (fun _ => "") turns).relay.log.filterMap RelayDeed.sent? = [9] := by decide +kernel
  obtain ⟨-, -, home, between, -⟩ := exactly_once_end_to_end ⟨fun m => .ok (m % 2), .always, .mark⟩ 0 (fun _ => "")
    fits accepted [] turns
  obtain ⟨-, -, own, -⟩ := between (home stopped)
  exact ⟨fits, accepted, stopped, sent, own.trans sent, by decide +kernel, by decide +kernel⟩

end Pipeline

end CorrelationBarrier
