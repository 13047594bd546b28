import CorrelationBarrier.Proofs.Poller.Relay

/-!
# A poll loop on a clock

A poll loop at work, with the times of what happens. The clock moves on only while nothing else can: it stands still while
the source works on a pull and while the loop can go on, and it does not pass the time for which the loop waits. Apart from
that the loop, its source, the receiver and whoever cancels the loop act in any order and at any times.

* `Clocked` — the loop with its clock and the history of what has happened; `ClockTurn`, `Clocked.turn`, `Clocked.play`;
* `Clocked.Step` — the turns that change something as a relation, one rule for each; `Clocked.step_of_turn`;
* `Clocked.play_induction` — what every step keeps holds in every run;
* `Clocked.Dated` — times are in order and none is yet to come;
* `History.Each` — what every entry of a history says about those before it.
-/

namespace CorrelationBarrier

variable {M : Type}

deriving instance DecidableEq for RelayDeed

/-- What has happened to a loop on a clock. -/
inductive ClockDeed (M : Type) where
  | did (deed : RelayDeed M)
  /-- A poll ended, and the loop waits for the next tick. -/
  | rested
  | ended (exit : PollExit)
  deriving DecidableEq

/-- A deed that the log of a loop at work has too. -/
def ClockDeed.did? : ClockDeed M → Option (RelayDeed M)
  | .did d => some d
  | _ => none

/-- What has happened and when, the oldest entry first. -/
abbrev History (M : Type) := List (Millis × ClockDeed M)

/-- The entries of a history that the log of a loop at work has too. -/
def History.log (history : History M) : List (RelayDeed M) := history.filterMap fun entry => entry.2.did?

/-- What a loop does with a poll when it ends it. -/
def Poller.closing (p : Poller M) : ClockDeed M := if p.channel.listening then .rested else .ended .outputClosed

/-- What has come to its end from one state of a loop to the next, a poll or the loop. -/
def Poller.closed? (before after : Poller M) : Option (ClockDeed M) :=
  if before.phase = after.phase then none
  else match after.phase with
    | .idle => some .rested
    | .stopped => some (.ended after.report.exit)
    | _ => none

/-- The same turn at another time. -/
def LoopTurn.at (now : Millis) : LoopTurn → LoopTurn
  | .goOn _ => .goOn now
  | .takeIn _ => .takeIn now
  | turn => turn

/-- The same turn at another time. -/
def RelayTurn.at (now : Millis) : RelayTurn M → RelayTurn M
  | .loop turn => .loop (turn.at now)
  | turn => turn

/-- A poll loop at work on a clock. -/
structure Clocked (M : Type) where
  poller : Poller M
  errand : Errand M := .unsent
  now : Millis := 0
  history : History M := []

/-- What may come next on a clock. -/
inductive ClockTurn (M : Type) where
  /-- A turn at the time of the clock. -/
  | act (turn : RelayTurn M)
  /-- The clock moves on. -/
  | wait (time : Millis)

namespace Clocked

/-- The loop without its clock. -/
def relay (c : Clocked M) : Relay M := { poller := c.poller, errand := c.errand, log := c.history.log }

/-- Whether nothing happens of its own accord before a time. -/
def waitsFor (c : Clocked M) (time : Millis) : Bool :=
  !c.poller.isPulling && (c.poller.step? c.now).isNone && c.poller.wakeAt?.all fun wake => time ≤ wake

/-- Goes on with another state of the loop, and writes down what has happened. -/
def become (c : Clocked M) (r : Relay M) : Clocked M :=
  let deeds := (r.log.drop c.history.log.length).map .did ++ (c.poller.closed? r.poller).toList
  { c with poller := r.poller, errand := r.errand, history := c.history ++ deeds.map fun d => (c.now, d) }

/-- A turn; one that is not possible changes nothing. -/
def turn (c : Clocked M) : ClockTurn M → Clocked M
  | .act t => c.become (c.relay.turn (t.at c.now))
  | .wait time => if c.waitsFor time then { c with now := max c.now time } else c

/-- Makes turns one after the other. -/
def play (c : Clocked M) (turns : List (ClockTurn M)) : Clocked M := turns.foldl turn c

theorem play_append (c : Clocked M) (turns turns' : List (ClockTurn M)) :
    c.play (turns ++ turns') = (c.play turns).play turns' := by
  simp [play]

theorem play_concat (c : Clocked M) (turns : List (ClockTurn M)) (t : ClockTurn M) :
    c.play (turns ++ [t]) = (c.play turns).turn t := by
  simp [play]

/-! ## what a turn can change -/

/-- The turns that change something. -/
inductive Step : Clocked M → Clocked M → Prop where
  | polled {p now past} (phase : p.phase = .idle) (active : p.cancelled = false) (due : p.due ≤ now) :
    Step ⟨p, .unsent, now, past⟩ ⟨p.beginPoll now, .unsent, now, past ++ [(now, .did .polled)]⟩
  | reserved {p now past left pulled} (phase : p.phase = .asking (left + 1) pulled) (active : p.cancelled = false)
    (listening : p.channel.listening = true) :
    Step ⟨p, .unsent, now, past⟩
      ⟨{ p with phase := .pulling left pulled }, .unsent, now, past ++ [(now, .did .reserved)]⟩
  | finished {p now past pulled}
    (phase : p.phase = .asking 0 pulled ∨
      ∃ resume, p.phase = .backingOff resume pulled ∧ p.cancelled = false ∧ resume ≤ now) :
    Step ⟨p, .unsent, now, past⟩ ⟨p.endPoll pulled, .unsent, now, past ++ [(now, p.closing)]⟩
  | stopped {p now past} (exit : PollExit) (phase : p.phase.isWaiting)
    (reason : exit = .cancelled ∧ p.cancelled = true ∨
      exit = .outputClosed ∧ p.channel.listening = false ∧ ∃ left pulled, p.phase = .asking left pulled) :
    Step ⟨p, .unsent, now, past⟩ ⟨p.stop exit, .unsent, now, past ++ [(now, .ended exit)]⟩
  | departed {p now past left pulled} (phase : p.phase = .pulling left pulled) :
    Step ⟨p, .unsent, now, past⟩ ⟨p, .away, now, past ++ [(now, .did .departed)]⟩
  | returned {p now past} (outcome : Pulled M) :
    Step ⟨p, .away, now, past⟩ ⟨p, .back outcome, now, past ++ [(now, .did (.returned outcome))]⟩
  | handedOn {p now past m left pulled} (phase : p.phase = .pulling left pulled) :
    Step ⟨p, .back (.ok (some m)), now, past⟩
      ⟨{ p with
        phase := .asking left (pulled + 1)
        channel := p.channel.push m
        report := { p.report with released := p.report.released + 1 } }, .unsent, now, past ++ [(now, .did (.sent m))]⟩
  | cameEmpty {p now past left pulled} (phase : p.phase = .pulling left pulled) :
    Step ⟨p, .back (.ok none), now, past⟩
      ⟨p.endPoll pulled, .unsent, now, past ++ [(now, .did .freed)] ++ [(now, p.closing)]⟩
  | failed {p now past left pulled} (failure : Failure String) (e : PollEvent)
    (phase : p.phase = .pulling left pulled) :
    Step ⟨p, .back (.error failure), now, past⟩
      ⟨{ p with
        phase := .backingOff (now + p.settings.errorBackoffMs) pulled
        report := { p.report with errors := p.report.errors + 1 }
        journal := e :: p.journal }, .unsent, now, past ++ [(now, .did .freed)]⟩
  | received {p errand now past m rest} (first : p.channel.buffer = m :: rest) :
    Step ⟨p, errand, now, past⟩
      ⟨{ p with channel := { p.channel with buffer := rest } }, errand, now, past ++ [(now, .did (.received m))]⟩
  | hungUp {p errand now past} :
    Step ⟨p, errand, now, past⟩
      ⟨{ p with channel := p.channel.hangUp }, errand, now, past ++ [(now, .did .hungUp)]⟩
  | cancelled {p errand now past} :
    Step ⟨p, errand, now, past⟩ ⟨p.cancel, errand, now, past ++ [(now, .did .cancelled)]⟩
  | waited {p errand now past} (time : Millis) (later : now < time) (free : p.isPulling = false)
    (asleep : p.step? now = none) (wake : ∀ wake ∈ p.wakeAt?, time ≤ wake) :
    Step ⟨p, errand, now, past⟩ ⟨p, errand, time, past⟩

end Clocked

namespace History

@[simp] theorem log_append (history history' : History M) : log (history ++ history') = log history ++ log history' := by
  simp [log]

end History

namespace Poller

variable {p : Poller M}

theorem endPoll_exit (deaf : p.channel.listening = false) (pulled : Nat) :
    (p.endPoll pulled).report.exit = .outputClosed := by
  simp [endPoll, note, stop, deaf]

theorem closed?_endPoll {pulled : Nat} (awake : p.phase ≠ .idle) (running : p.phase ≠ .stopped) :
    p.closed? (p.endPoll pulled) = some p.closing := by
  unfold closed? closing
  rw [endPoll_phase]
  cases listening : p.channel.listening with
  | true => simp [awake]
  | false => simp [running, endPoll_exit listening]

end Poller

namespace Clocked

/-- What is written down when a loop goes on. -/
def tidings (p p' : Poller M) (deeds : List (RelayDeed M)) : List (ClockDeed M) :=
  deeds.map .did ++ (p.closed? p').toList

theorem become_eq (p p' : Poller M) (errand errand' : Errand M) (now : Millis) (past : History M)
    (deeds : List (RelayDeed M)) :
    (⟨p, errand, now, past⟩ : Clocked M).become ⟨p', errand', past.log ++ deeds⟩ =
      ⟨p', errand', now, past ++ (tidings p p' deeds).map fun d => (now, d)⟩ := by
  simp [become, tidings]

theorem become_same (c : Clocked M) : c.become c.relay = c := by
  simp [become, relay, Poller.closed?]

/-- What a loop does of its own accord is one of the rules. -/
theorem step_of_step? {p p' : Poller M} {now : Millis} {past : History M} (h : p.step? now = some p') :
    Step ⟨p, .unsent, now, past⟩
      ⟨p', .unsent, now, past ++ (tidings p p' p'.phase.deed?.toList).map fun d => (now, d)⟩ := by
  have stopped {exit : PollExit} (waiting : p.phase.isWaiting)
      (reason : exit = .cancelled ∧ p.cancelled = true ∨
        exit = .outputClosed ∧ p.channel.listening = false ∧ ∃ left pulled, p.phase = .asking left pulled)
      (hp : p.stop exit = p') :
      Step ⟨p, .unsent, now, past⟩
        ⟨p', .unsent, now, past ++ (tidings p p' p'.phase.deed?.toList).map fun d => (now, d)⟩ := by
    have running : p.phase ≠ .stopped := fun phase => by simp [phase, Phase.isWaiting] at waiting
    have tidings : tidings p (p.stop exit) (p.stop exit).phase.deed?.toList = [.ended exit] := by
      simp [tidings, Phase.deed?, Poller.closed?, running, Poller.stop]
    rw [← hp, tidings]
    exact .stopped exit waiting reason
  have finished {pulled : Nat}
      (phase : p.phase = .asking 0 pulled ∨
        ∃ resume, p.phase = .backingOff resume pulled ∧ p.cancelled = false ∧ resume ≤ now)
      (hp : p.endPoll pulled = p') :
      Step ⟨p, .unsent, now, past⟩
        ⟨p', .unsent, now, past ++ (tidings p p' p'.phase.deed?.toList).map fun d => (now, d)⟩ := by
    have closed : p.closed? (p.endPoll pulled) = some p.closing := by
      apply Poller.closed?_endPoll <;> rcases phase with phase | ⟨resume, phase, -⟩ <;> simp [phase]
    have tidings : tidings p (p.endPoll pulled) (p.endPoll pulled).phase.deed?.toList = [p.closing] := by
      simp [tidings, Relay.deed?_endPoll, closed]
    rw [← hp, tidings]
    exact .finished phase
  unfold Poller.step? at h
  split at h
  case h_1 phase =>
    split at h
    · exact stopped (by simp [phase, Phase.isWaiting]) (.inl ⟨rfl, ‹_›⟩) (Option.some.inj h)
    · split at h
      · next active due =>
        have tidings : tidings p (p.beginPoll now) (p.beginPoll now).phase.deed?.toList = [.did .polled] := by
          simp [tidings, Phase.deed?, Poller.closed?, phase]
        rw [← Option.some.inj h, tidings]
        exact .polled phase (by simpa using active) due
      · cases h
  case h_2 pulled phase => exact finished (.inl phase) (Option.some.inj h)
  case h_3 left pulled phase =>
    have waiting : p.phase.isWaiting := by simp [phase, Phase.isWaiting]
    split at h
    · exact stopped waiting (.inl ⟨rfl, ‹_›⟩) (Option.some.inj h)
    · next active =>
      split at h
      · next deaf => exact stopped waiting (.inr ⟨rfl, by simpa using deaf, _, _, phase⟩) (Option.some.inj h)
      · next listening =>
        split at h
        · have tidings : tidings p { p with phase := .pulling left pulled } [.reserved] = [.did .reserved] := by
            simp [tidings, Poller.closed?, phase]
          rw [← Option.some.inj h]
          exact tidings ▸ .reserved phase (by simpa using active) (by simpa using listening)
        · cases h
  case h_4 resume pulled phase =>
    split at h
    · exact stopped (by simp [phase, Phase.isWaiting]) (.inl ⟨rfl, ‹_›⟩) (Option.some.inj h)
    · next active =>
      split at h
      · next elapsed => exact finished (.inr ⟨resume, phase, by simpa using active, elapsed⟩) (Option.some.inj h)
      · cases h
  all_goals cases h

/-- What a loop does when it takes in an answer is one of the rules. -/
theorem step_of_answer {p : Poller M} {now : Millis} {past : History M} {left pulled : Nat}
    (phase : p.phase = .pulling left pulled) (outcome : Pulled M) :
    Step ⟨p, .back outcome, now, past⟩
      ⟨p.answer now outcome, .unsent, now,
        past ++ (tidings p (p.answer now outcome) [.ofOutcome outcome]).map fun d => (now, d)⟩ := by
  rcases outcome with failure | _ | m
  · simp only [tidings, Poller.answer, phase, RelayDeed.ofOutcome, Poller.closed?]
    exact .failed failure _ phase
  · have closed : p.closed? (p.endPoll pulled) = some p.closing := by
      apply Poller.closed?_endPoll <;> simp [phase]
    simp only [tidings, Poller.answer, phase, RelayDeed.ofOutcome, closed]
    show Step _ ⟨_, _, _, past ++ ([(now, .did .freed)] ++ [(now, p.closing)])⟩
    rw [← List.append_assoc]
    exact .cameEmpty phase
  · simp only [tidings, Poller.answer, phase, RelayDeed.ofOutcome, Poller.closed?]
    exact .handedOn phase

/-- What the receiver does, or whoever cancels the loop, does not bring anything to its end. -/
theorem become_outside (p q : Poller M) (phase : p.phase = q.phase) (errand errand' : Errand M) (now : Millis)
    (past : History M) (d : RelayDeed M) :
    (⟨p, errand, now, past⟩ : Clocked M).become ⟨q, errand', past.log ++ [d]⟩ =
      ⟨q, errand', now, past ++ [(now, .did d)]⟩ := by
  simp [become_eq, tidings, Poller.closed?, phase]

/-- The clock stands still or moves on while the loop sleeps. -/
theorem step_of_wait (c : Clocked M) (time : Millis) : c.turn (.wait time) = c ∨ Step c (c.turn (.wait time)) := by
  obtain ⟨p, errand, now, past⟩ := c
  simp only [turn]
  split
  · next waits =>
    simp only [waitsFor, Bool.and_eq_true, Bool.not_eq_true', Option.isNone_iff_eq_none] at waits
    obtain ⟨⟨free, asleep⟩, wake⟩ := waits
    rcases Nat.lt_or_ge now time with later | soon
    · rw [Nat.max_eq_right (Nat.le_of_lt later)]
      exact .inr (.waited time later free asleep (by simpa [Option.all_eq_true] using wake))
    · rw [Nat.max_eq_left soon]
      exact .inl rfl
  · exact .inl rfl

/-- A turn of the loop, of its receiver or of whoever cancels it changes nothing or is one of the rules. -/
theorem step_of_loopTurn {c : Clocked M} (apt : c.relay.Apt) (t : LoopTurn) :
    c.turn (.act (.loop t)) = c ∨ Step c (c.turn (.act (.loop t))) := by
  obtain ⟨p, errand, now, past⟩ := c
  simp only [turn, RelayTurn.at, Relay.turn]
  cases t with
  | goOn time =>
    simp only [LoopTurn.at, Relay.loopTurn]
    split
    · exact .inl (become_same _)
    · next p' hp =>
      -- a loop that holds a slot waits for the source
      have home : errand = .unsent := by
        by_contra away
        obtain ⟨left, pulled, phase⟩ := apt away
        simp [relay, Poller.step?, show p.phase = _ from phase] at hp
      obtain rfl := home
      right
      simp only [relay, become_eq]
      exact step_of_step? hp
  | takeIn time =>
    simp only [LoopTurn.at, Relay.loopTurn]
    cases errand with
    | unsent | away => exact .inl (become_same _)
    | back outcome =>
      obtain ⟨left, pulled, (phase : p.phase = .pulling left pulled)⟩ := apt (by simp [relay])
      right
      simp only [relay, become_eq]
      exact step_of_answer phase outcome
  | receive =>
    simp only [LoopTurn.at, Relay.loopTurn, relay]
    cases first : p.channel.buffer with
    | nil =>
      left
      simp only [Channel.receive, first]
      exact become_same ⟨p, errand, now, past⟩
    | cons m rest =>
      right
      simp only [Channel.receive, first]
      rw [become_outside p { p with channel := { p.channel with buffer := rest } } rfl]
      exact .received first
  | hangUp =>
    simp only [LoopTurn.at, Relay.loopTurn, relay]
    rw [become_outside p { p with channel := p.channel.hangUp } rfl]
    exact .inr .hungUp
  | cancel =>
    simp only [LoopTurn.at, Relay.loopTurn, relay]
    rw [become_outside p p.cancel rfl]
    exact .inr .cancelled

/-- A turn changes nothing or is one of the rules. -/
theorem step_of_turn {c : Clocked M} (apt : c.relay.Apt) (t : ClockTurn M) : c.turn t = c ∨ Step c (c.turn t) := by
  rcases t with (t | _ | outcome) | time
  case wait => exact step_of_wait c time
  case loop => exact step_of_loopTurn apt t
  all_goals obtain ⟨p, errand, now, past⟩ := c
  case depart =>
    simp only [turn, RelayTurn.at, Relay.turn]
    split
    · next home phase =>
      obtain rfl : errand = .unsent := home
      simp only [relay]
      rw [become_outside p p rfl]
      exact .inr (.departed phase)
    · exact .inl (become_same _)
  case comeBack =>
    simp only [turn, RelayTurn.at, Relay.turn]
    cases errand with
    | away =>
      simp only [relay]
      rw [become_outside p p rfl]
      exact .inr (.returned outcome)
    | unsent | back o => exact .inl (become_same _)

/-! ## what every run keeps -/

/-- What is written down at a time when something is brought to its end is no deed of a loop at work. -/
theorem log_closed? (p p' : Poller M) (now : Millis) :
    History.log ((p.closed? p').toList.map fun d => (now, d)) = [] := by
  unfold Poller.closed?
  split
  · rfl
  · split <;> rfl

theorem log_tidings (p p' : Poller M) (now : Millis) (deeds : List (RelayDeed M)) :
    History.log ((tidings p p' deeds).map fun d => (now, d)) = deeds := by
  rw [tidings, List.map_append, History.log_append, log_closed?, List.append_nil]
  induction deeds with
  | nil => rfl
  | cons d deeds ih => exact congrArg (d :: ·) ih

end Clocked

theorem Relay.turn_log (r : Relay M) (t : RelayTurn M) : ∃ deeds, (r.turn t).log = r.log ++ deeds := by
  have unchanged : ∃ deeds, r.log = r.log ++ deeds := ⟨[], (List.append_nil _).symm⟩
  rcases t with t | _ | outcome
  case loop =>
    cases t with
    | goOn | takeIn | receive =>
      simp only [turn, loopTurn]
      split <;> first | exact unchanged | exact ⟨_, rfl⟩
    | hangUp | cancel => exact ⟨_, rfl⟩
  all_goals
    simp only [turn]
    split <;> first | exact ⟨_, rfl⟩ | exact unchanged

namespace Clocked

/-- On a clock, a loop makes the turns of a loop at work. -/
theorem relay_act (c : Clocked M) (t : RelayTurn M) : (c.turn (.act t)).relay = c.relay.turn (t.at c.now) := by
  obtain ⟨deeds, log⟩ := c.relay.turn_log (t.at c.now)
  obtain ⟨p, errand, now, past⟩ := c
  simp only [turn]
  generalize (⟨p, errand, now, past⟩ : Clocked M).relay.turn (t.at now) = r at log
  obtain ⟨p', errand', _⟩ := r
  obtain rfl : _ = past.log ++ deeds := log
  rw [become_eq]
  simp [relay, log_tidings]

theorem relay_wait (c : Clocked M) (time : Millis) : (c.turn (.wait time)).relay = c.relay := by
  simp only [turn]
  split <;> rfl

theorem exists_relay_turns (c : Clocked M) (turns : List (ClockTurn M)) :
    ∃ turns', (c.play turns).relay = c.relay.play turns' := by
  induction turns using List.reverseRecOn with
  | nil => exact ⟨[], rfl⟩
  | append_singleton turns t ih =>
    obtain ⟨turns', ih⟩ := ih
    rw [play_concat]
    cases t with
    | wait => exact ⟨turns', (relay_wait _ _).trans ih⟩
    | act t => exact ⟨turns' ++ [t.at (c.play turns).now], by rw [relay_act, ih, Relay.play_concat]⟩

theorem apt_turn {c : Clocked M} (apt : c.relay.Apt) (t : ClockTurn M) : (c.turn t).relay.Apt := by
  cases t with
  | wait => exact relay_wait c _ ▸ apt
  | act t =>
    rw [relay_act]
    rcases Relay.step_of_turn apt (t.at c.now) with same | moved
    · rwa [same]
    · exact moved.apt apt

theorem apt_play {c : Clocked M} (apt : c.relay.Apt) (turns : List (ClockTurn M)) : (c.play turns).relay.Apt := by
  induction turns generalizing c with
  | nil => exact apt
  | cons t turns ih => exact ih (apt_turn apt t)

/-- What holds of a loop and is kept by every step holds whatever the turns. -/
theorem play_induction {P : Clocked M → Prop} {c : Clocked M} (apt : c.relay.Apt) (start : P c)
    (step : ∀ c c', c.relay.Apt → Step c c' → P c → P c') (turns : List (ClockTurn M)) : P (c.play turns) := by
  induction turns using List.reverseRecOn with
  | nil => exact start
  | append_singleton turns t ih =>
    rw [play_concat]
    have apt := apt_play apt turns
    rcases step_of_turn apt t with same | moved
    · rwa [same]
    · exact step _ _ apt moved ih

variable {c c' : Clocked M}

/-- Whatever happens, happens at the time of the clock, which does not go back. -/
theorem Step.grows (step : Step c c') :
    c.now ≤ c'.now ∧ ∃ new, c'.history = c.history ++ new ∧ ∀ entry ∈ new, entry.1 = c'.now := by
  cases step with
  | cameEmpty =>
    refine ⟨Nat.le_refl _, [_, _], List.append_assoc _ _ _, ?_⟩
    simp
  | waited time later => exact ⟨Nat.le_of_lt later, [], by simp, by simp⟩
  | polled | reserved | finished | stopped | departed | returned | handedOn | failed | received | hungUp | cancelled =>
    exact ⟨Nat.le_refl _, [_], rfl, by simp⟩

theorem Step.mem_cases (step : Step c c') {t : Millis} {d : ClockDeed M} (mem : (t, d) ∈ c'.history) :
    (t, d) ∈ c.history ∨ t = c'.now := by
  obtain ⟨-, new, grown, times⟩ := step.grows
  rw [grown] at mem
  exact (List.mem_append.1 mem).imp_right (times _)

theorem Step.mem_of_mem (step : Step c c') {entry : Millis × ClockDeed M} (mem : entry ∈ c.history) :
    entry ∈ c'.history := by
  obtain ⟨-, new, grown, -⟩ := step.grows
  exact grown ▸ List.mem_append_left new mem

/-- The times of a history are in order, and none is yet to come. -/
def Dated (c : Clocked M) : Prop :=
  (∀ entry ∈ c.history, entry.1 ≤ c.now) ∧ c.history.Pairwise fun entry later => entry.1 ≤ later.1

theorem Step.dated (step : Step c c') (dated : c.Dated) : c'.Dated := by
  obtain ⟨later, new, grown, times⟩ := step.grows
  have earlier (entry : Millis × ClockDeed M) (mem : entry ∈ c.history) : entry.1 ≤ c'.now :=
    Nat.le_trans (dated.1 entry mem) later
  unfold Dated
  rw [grown]
  refine ⟨fun entry mem => ?_, List.pairwise_append.2 ⟨dated.2, ?_, fun entry mem entry' mem' => ?_⟩⟩
  · exact (List.mem_append.1 mem).elim (earlier entry) fun mem => Nat.le_of_eq (times entry mem)
  · exact List.pairwise_of_forall_mem_list fun entry mem entry' mem' =>
      Nat.le_of_eq ((times entry mem).trans (times entry' mem').symm)
  · exact times entry' mem' ▸ earlier entry mem

end Clocked

namespace History

variable {history before after : History M} {t t' : Millis} {d d' : ClockDeed M}

/-- What is after an entry is not earlier. -/
theorem le_of_dated (dated : history.Pairwise fun entry later => entry.1 ≤ later.1)
    (h : history = before ++ (t, d) :: after) (mem : (t', d') ∈ after) : t ≤ t' := by
  subst h
  exact List.rel_of_pairwise_cons (List.pairwise_append.1 dated).2.1 mem

/-- Every entry of a history is as it should be after those before it. -/
def Each (rests : History M → Millis → ClockDeed M → Prop) (history : History M) : Prop :=
  ∀ before t d after, history = before ++ (t, d) :: after → rests before t d

variable {rests : History M → Millis → ClockDeed M → Prop}

theorem Each.of_append {rest : History M} (each : Each rests (history ++ rest)) : Each rests history :=
  fun before t d after split => each before t d (after ++ rest) (by simp [split])

theorem Each.of_split (each : Each rests history) (split : history = before ++ after) : Each rests before :=
  (split ▸ each).of_append

theorem each_concat (each : Each rests history) (h : rests history t d) : Each rests (history ++ [(t, d)]) := by
  intro before t' d' after split
  rcases List.eq_nil_or_concat after with rfl | ⟨after, last, rfl⟩
  · obtain ⟨rfl, hd⟩ := List.append_inj' split rfl
    cases hd
    exact h
  · have split : history ++ [(t, d)] = (before ++ (t', d') :: after) ++ [last] := by simpa using split
    exact each before t' d' after (List.append_inj' split rfl).1

end History

end CorrelationBarrier
