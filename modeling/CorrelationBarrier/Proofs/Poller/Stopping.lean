import CorrelationBarrier.Proofs.Poller.Clocked
import CorrelationBarrier.Proofs.Poller.Delivery

/-!
# Why and when a poll loop ends

A poll loop on a clock ends because it was cancelled or because nobody receives any more, and its report says which. The
clock does not move on before a cancelled loop has ended. A loop that nobody listens to ends when it next looks for a slot
or comes to the end of a poll.

* `ClockDeed.RestsOn` — what must have come before the deeds that begin a poll, a pull or the end;
* `Clocked.Watched` — what the state of a loop says about its history, kept by every step: `Step.watched`;
* `Clocked.lastsUntil` — when a loop that nobody listens to ends unless it is cancelled; `Step.closes`;
* `Clocked.stops_in_time` — whatever the turns.
-/

namespace CorrelationBarrier

variable {M : Type}

/-- What a history says that makes a loop end. -/
def PollExit.IsDue (before : History M) (t : Millis) : PollExit → Prop
  | .cancelled => (t, .did .cancelled) ∈ before
  | .outputClosed => ∃ d, (d, .did .hungUp) ∈ before

/-- What must have come before a deed at a time. No poll begins after the loop was cancelled, and no pull after the receiver
has left, except at that very time. A loop ends once, and if it was cancelled, at that very time. -/
def ClockDeed.RestsOn (before : History M) (t : Millis) : ClockDeed M → Prop
  | .did .polled => ∀ s, (s, .did .cancelled) ∉ before
  | .did .departed => (∀ d, (d, .did .hungUp) ∈ before → d = t) ∧ ∃ s, (s, .did .polled) ∈ before
  | .ended exit =>
    (∀ e exit', (e, .ended exit') ∉ before) ∧ (∀ s, (s, .did .cancelled) ∈ before → s = t) ∧ exit.IsDue before t
  | _ => True

namespace Poller

variable {p : Poller M}

theorem endPoll_stopped (deaf : p.channel.listening = false) (pulled : Nat) : (p.endPoll pulled).phase = .stopped := by
  rw [endPoll_phase, deaf]
  rfl

@[simp] theorem endPoll_isPulling (pulled : Nat) : (p.endPoll pulled).isPulling = false := by simp [isPulling]

theorem isPulling_iff : p.isPulling = true ↔ ∃ left pulled, p.phase = .pulling left pulled := by
  unfold isPulling reserved
  cases p.phase <;> simp

/-- A loop that was cancelled waits only for the source. -/
theorem step?_of_cancelled (cancelled : p.cancelled = true) (free : p.isPulling = false) (running : p.phase ≠ .stopped)
    (now : Millis) : (p.step? now).isSome = true := by
  unfold step?
  cases phase : p.phase with
  | idle | backingOff => simp [cancelled]
  | asking left => cases left <;> simp [cancelled]
  | pulling left pulled => simp [isPulling, reserved, phase] at free
  | stopped => exact absurd phase running

/-- A loop that nobody listens to does not wait for a slot. -/
theorem step?_of_deaf (deaf : p.channel.listening = false) {left pulled : Nat} (phase : p.phase = .asking left pulled)
    (now : Millis) : (p.step? now).isSome = true := by
  cases left with
  | zero => simp [step?, phase]
  | succ left => cases cancelled : p.cancelled <;> simp [step?, phase, deaf, cancelled]

/-- A loop that nobody listens to and that sleeps waits for a time. -/
theorem exists_wake_of_deaf (deaf : p.channel.listening = false) (free : p.isPulling = false) {now : Millis}
    (asleep : p.step? now = none) (running : p.phase ≠ .stopped) : ∃ wake, p.wakeAt? = some wake := by
  cases phase : p.phase with
  | idle | backingOff => simp [wakeAt?, phase]
  | asking left pulled => simpa [asleep] using step?_of_deaf deaf phase now
  | pulling left pulled => exact absurd (isPulling_iff.2 ⟨left, pulled, phase⟩) (ne_true_of_eq_false free)
  | stopped => exact absurd phase running

end Poller

namespace Clocked

variable {c c' : Clocked M}

/-! ## what a step does -/

theorem Step.cancelled_iff (step : Step c c')
    (cancelled : c.poller.cancelled = true ↔ ∃ t, (t, .did .cancelled) ∈ c.history) :
    c'.poller.cancelled = true ↔ ∃ t, (t, .did .cancelled) ∈ c'.history := by
  cases step with
  | @finished p | @cameEmpty p => cases listening : p.channel.listening <;> simp_all [Poller.closing]
  | polled | reserved | stopped | departed | returned | handedOn | failed | received | hungUp | cancelled | waited =>
    simp_all [Poller.cancel]

theorem Step.deaf_iff (step : Step c c')
    (deaf : c.poller.channel.listening = false ↔ ∃ d, (d, .did .hungUp) ∈ c.history) :
    c'.poller.channel.listening = false ↔ ∃ d, (d, .did .hungUp) ∈ c'.history := by
  cases step with
  | @finished p | @cameEmpty p => cases listening : p.channel.listening <;> simp_all [Poller.closing]
  | polled | reserved | stopped | departed | returned | handedOn | failed | received | hungUp | cancelled | waited =>
    simp_all [Channel.hangUp]

/-- A loop that has ended does nothing more. -/
theorem Step.final (step : Step c c') (apt : c.relay.Apt) (stopped : c.poller.phase = .stopped) :
    c'.poller.phase = .stopped ∧ c'.poller.report = c.poller.report ∧
      ∀ e exit, (e, .ended exit) ∈ c'.history → (e, .ended exit) ∈ c.history := by
  have home : c.errand = .unsent := apt.home (by simp [relay, Poller.hasStopped, stopped])
  cases step with
  | stopped exit waiting =>
    dsimp only at stopped
    simp [stopped, Phase.isWaiting] at waiting
  | received | hungUp | cancelled | waited => simpa using stopped
  | polled | reserved | finished | departed => simp_all
  | returned | handedOn | cameEmpty | failed => cases home

/-- A loop ends once, and writes down why. -/
theorem Step.ends (step : Step c c') (stopped : c'.poller.phase = .stopped) :
    c.poller.phase = .stopped ∨ (c.now, .ended c'.poller.report.exit) ∈ c'.history := by
  cases step with
  | @finished p _ _ pulled | @cameEmpty p _ _ _ pulled =>
    right
    cases listening : p.channel.listening with
    | true => simp [Poller.endPoll_phase, listening] at stopped
    | false => simp [Poller.closing, listening, Poller.endPoll_exit]
  | stopped => exact .inr (by simp [Poller.stop])
  | polled | reserved | handedOn | failed => simp at stopped
  | departed | returned | received | hungUp | cancelled | waited => exact .inl stopped

theorem Step.ended_cases (step : Step c c') {e : Millis} {exit : PollExit} (mem : (e, .ended exit) ∈ c'.history) :
    (e, .ended exit) ∈ c.history ∨ e = c'.now ∧ c'.poller.phase = .stopped ∧ c'.poller.report.exit = exit := by
  cases step with
  | @finished p now past pulled | @cameEmpty p now past _ pulled =>
    cases listening : p.channel.listening with
    | true => exact .inl (by simpa [Poller.closing, listening] using mem)
    | false =>
      have cases : (e, .ended exit) ∈ past ∨ e = now ∧ exit = .outputClosed := by
        simpa [Poller.closing, listening] using mem
      rcases cases with mem | ⟨rfl, rfl⟩
      · exact .inl mem
      · exact .inr ⟨rfl, by simp [Poller.endPoll_phase, listening], Poller.endPoll_exit listening pulled⟩
  | @stopped p now past exit' =>
    have cases : (e, .ended exit) ∈ past ∨ e = now ∧ exit = exit' := by simpa using mem
    rcases cases with mem | ⟨rfl, rfl⟩
    · exact .inl mem
    · exact .inr ⟨rfl, rfl, rfl⟩
  | polled | reserved | handedOn | failed | departed | returned | received | hungUp | cancelled | waited =>
    exact .inl (by simpa using mem)

/-- The clock stands still while the loop waits for the source, and once it is cancelled until it has ended. -/
theorem Step.now_eq (step : Step c c')
    (still : c.poller.isPulling = true ∨ c.poller.cancelled = true ∧ c.poller.phase ≠ .stopped) : c'.now = c.now := by
  cases step with
  | @waited p errand now past time later free asleep =>
    rcases still with pulling | ⟨cancelled, running⟩
    · exact absurd pulling (ne_true_of_eq_false free)
    · have awake := Poller.step?_of_cancelled cancelled free running now
      simp only [asleep, Option.isSome_none, Bool.false_eq_true] at awake
  | _ => rfl

theorem Step.listening_of_pulling (step : Step c c') (pulling : c'.poller.isPulling = true) :
    c.poller.isPulling = true ∨ c.poller.channel.listening = true := by
  cases step with
  | reserved _ _ listening => exact .inr listening
  | polled | stopped | handedOn | failed => simp [Poller.isPulling, Poller.reserved] at pulling
  | finished | cameEmpty => simp [Poller.isPulling] at pulling
  | departed | returned | received | hungUp | cancelled | waited => exact .inl pulling

/-- A loop leaves the state between polls only to begin a poll or to end. -/
theorem Step.polled_of_idle (step : Step c c') (idle : c.poller.phase = .idle) :
    c'.poller.phase = .idle ∨ c'.poller.phase = .stopped ∨ (c.now, .did .polled) ∈ c'.history := by
  cases step with
  | polled => simp
  | stopped => simp
  | departed | returned | received | hungUp | cancelled | waited => exact .inl idle
  | reserved | finished | handedOn | cameEmpty | failed => simp_all

theorem Step.ticks_eq (step : Step c c') (fresh : ∀ s, (s, .did .polled) ∉ c'.history) :
    c'.poller.report.ticks = c.poller.report.ticks := by
  cases step with
  | polled => exact absurd (List.mem_append_right _ (List.mem_singleton.2 rfl)) (fresh _)
  | @finished p _ _ pulled | @cameEmpty p _ _ _ pulled =>
    obtain ⟨exit, report⟩ := p.endPoll_report pulled
    simp [report]
  | reserved | stopped | departed | returned | handedOn | failed | received | hungUp | cancelled | waited => rfl

/-! ## the invariant -/

/-- What the state of a loop says about its history. -/
structure Watched (c : Clocked M) : Prop where
  dated : c.Dated
  cancelled : c.poller.cancelled = true ↔ ∃ t, (t, .did .cancelled) ∈ c.history
  deaf : c.poller.channel.listening = false ↔ ∃ d, (d, .did .hungUp) ∈ c.history
  ended : ∀ e exit, (e, .ended exit) ∈ c.history → c.poller.phase = .stopped ∧ c.poller.report.exit = exit
  reports : c.poller.phase = .stopped → ∃ e, (e, .ended c.poller.report.exit) ∈ c.history
  /-- A loop that was cancelled was cancelled just now, unless it has ended. -/
  still : c.poller.phase ≠ .stopped → ∀ t, (t, .did .cancelled) ∈ c.history → t = c.now
  /-- If the receiver of a loop that waits for the source has left, it left just now. -/
  held : c.poller.isPulling = true → ∀ d, (d, .did .hungUp) ∈ c.history → d = c.now
  inPoll : c.poller.phase ≠ .idle → c.poller.phase ≠ .stopped → ∃ s, (s, .did .polled) ∈ c.history
  fresh : (∀ s, (s, .did .polled) ∉ c.history) → c.poller.report.ticks = 0
  founded : History.Each ClockDeed.RestsOn c.history

theorem Watched.restsOn_ended (watched : c.Watched) (running : c.poller.phase ≠ .stopped) {exit : PollExit}
    (reason : exit = .cancelled ∧ c.poller.cancelled = true ∨ exit = .outputClosed ∧ c.poller.channel.listening = false) :
    ClockDeed.RestsOn c.history c.now (.ended exit) := by
  refine ⟨fun e exit' mem => running (watched.ended e exit' mem).1, watched.still running, ?_⟩
  rcases reason with ⟨rfl, cancelled⟩ | ⟨rfl, deaf⟩
  · obtain ⟨t, mem⟩ := watched.cancelled.1 cancelled
    exact watched.still running t mem ▸ mem
  · exact watched.deaf.1 deaf

theorem Watched.restsOn_closing (watched : c.Watched) (running : c.poller.phase ≠ .stopped) :
    ClockDeed.RestsOn c.history c.now c.poller.closing := by
  unfold Poller.closing
  split
  · trivial
  · next listening => exact watched.restsOn_ended running (.inr ⟨rfl, by simpa using listening⟩)

/-- What a loop gives back does not bear on its end. -/
theorem restsOn_freed {before : History M} {now t : Millis} (p : Poller M)
    (rests : ClockDeed.RestsOn before now p.closing) :
    ClockDeed.RestsOn (before ++ [(t, .did .freed)]) now p.closing := by
  revert rests
  unfold Poller.closing
  split
  · exact id
  · exact fun rests => by simpa [ClockDeed.RestsOn, PollExit.IsDue] using rests

theorem Step.founded (step : Step c c') (watched : c.Watched) : History.Each ClockDeed.RestsOn c'.history := by
  have founded := watched.founded
  cases step with
  | waited => exact founded
  | polled phase active =>
    refine History.each_concat founded fun s mem => ?_
    exact absurd (watched.cancelled.2 ⟨s, mem⟩) (ne_true_of_eq_false active)
  | @finished p now past pulled phase =>
    have running : p.phase ≠ .stopped := by rcases phase with phase | ⟨resume, phase, -⟩ <;> simp [phase]
    exact History.each_concat founded (watched.restsOn_closing running)
  | @stopped p now past exit waiting reason =>
    have running : p.phase ≠ .stopped := fun stopped => by simp [stopped, Phase.isWaiting] at waiting
    exact History.each_concat founded (watched.restsOn_ended running (reason.imp_right fun h => ⟨h.1, h.2.1⟩))
  | departed phase =>
    refine History.each_concat founded ⟨watched.held (Poller.isPulling_iff.2 ⟨_, _, phase⟩), watched.inPoll ?_ ?_⟩ <;>
      simp [phase]
  | @cameEmpty p now past left pulled phase =>
    have running : p.phase ≠ .stopped := by simp [phase]
    exact History.each_concat (History.each_concat founded trivial) (restsOn_freed p (watched.restsOn_closing running))
  | reserved | returned | handedOn | failed | received | hungUp | cancelled =>
    exact History.each_concat founded trivial

theorem Step.watched (step : Step c c') (apt : c.relay.Apt) (watched : c.Watched) : c'.Watched where
  dated := step.dated watched.dated
  cancelled := step.cancelled_iff watched.cancelled
  deaf := step.deaf_iff watched.deaf
  ended := fun e exit mem => by
    by_cases stopped : c.poller.phase = .stopped
    · obtain ⟨stopped', report, same⟩ := step.final apt stopped
      exact ⟨stopped', report ▸ (watched.ended e exit (same e exit mem)).2⟩
    · rcases step.ended_cases mem with mem | ⟨-, ended⟩
      · exact absurd (watched.ended e exit mem).1 stopped
      · exact ended
  reports := fun stopped' => by
    by_cases stopped : c.poller.phase = .stopped
    · obtain ⟨-, report, -⟩ := step.final apt stopped
      obtain ⟨e, mem⟩ := watched.reports stopped
      exact ⟨e, report ▸ step.mem_of_mem mem⟩
    · exact ⟨c.now, (step.ends stopped').resolve_left stopped⟩
  still := fun running' t mem => by
    have running : c.poller.phase ≠ .stopped := fun stopped => running' (step.final apt stopped).1
    rcases step.mem_cases mem with mem | now
    · have cancelled := watched.cancelled.2 ⟨t, mem⟩
      exact (watched.still running t mem).trans (step.now_eq (.inr ⟨cancelled, running⟩)).symm
    · exact now
  held := fun pulling' d mem => by
    rcases step.mem_cases mem with mem | now
    · rcases step.listening_of_pulling pulling' with pulling | listening
      · exact (watched.held pulling d mem).trans (step.now_eq (.inl pulling)).symm
      · rw [watched.deaf.2 ⟨d, mem⟩] at listening
        cases listening
    · exact now
  inPoll := fun awake running' => by
    have running : c.poller.phase ≠ .stopped := fun stopped => running' (step.final apt stopped).1
    by_cases idle : c.poller.phase = .idle
    · exact ⟨c.now, ((step.polled_of_idle idle).resolve_left awake).resolve_left running'⟩
    · exact (watched.inPoll idle running).imp fun s mem => step.mem_of_mem mem
  fresh := fun none => (step.ticks_eq none).trans (watched.fresh fun s mem => none s (step.mem_of_mem mem))
  founded := step.founded watched

theorem watched_start {p : Poller M} (phase : p.phase = .idle) (active : p.cancelled = false)
    (listening : p.channel.listening = true) (fresh : p.report = {}) : ({ poller := p } : Clocked M).Watched where
  dated := ⟨fun entry mem => absurd mem List.not_mem_nil, List.Pairwise.nil⟩
  cancelled := by simp [active]
  deaf := by simp [listening]
  ended := fun e exit mem => absurd mem List.not_mem_nil
  reports := fun stopped => by simp [phase] at stopped
  still := fun _ t mem => absurd mem List.not_mem_nil
  held := fun _ d mem => absurd mem List.not_mem_nil
  inPoll := fun awake => absurd phase awake
  fresh := fun _ => by simp [fresh]
  founded := fun before t d after h => by simp at h

/-! ## a loop that nobody listens to -/

/-- Whether the source owes the loop an answer. -/
def awaits (c : Clocked M) : Bool :=
  c.poller.isPulling && match c.errand with
    | .back _ => false
    | _ => true

/-- When a loop that nobody listens to ends unless it is cancelled, if the source owes it no answer: with the next tick,
with the end of its backoff, or at once. -/
def lastsUntil (c : Clocked M) : Millis :=
  match c.poller.phase, c.errand with
  | .idle, _ => max c.now c.poller.due
  | .backingOff resume _, _ => max c.now resume
  | .pulling _ _, .back (.error _) => c.now + c.poller.settings.errorBackoffMs
  | _, _ => c.now

theorem now_le_lastsUntil (c : Clocked M) : c.now ≤ c.lastsUntil := by
  unfold lastsUntil
  split
  · exact Nat.le_max_left _ _
  · exact Nat.le_max_left _ _
  · exact Nat.le_add_right _ _
  · exact Nat.le_refl _

theorem lastsUntil_of_wake {wake : Millis} (h : c.poller.wakeAt? = some wake) : c.lastsUntil = max c.now wake := by
  unfold lastsUntil
  cases phase : c.poller.phase <;> simp_all [Poller.wakeAt?]

theorem Step.deaf (step : Step c c') (deaf : c.poller.channel.listening = false) :
    c'.poller.channel.listening = false := by
  cases step <;> simp_all [Channel.hangUp]

/-- A loop that nobody listens to ends at its time, or goes on towards it. -/
theorem Step.closes (step : Step c c') (apt : c.relay.Apt) (deaf : c.poller.channel.listening = false)
    (answered : c.awaits = false) (running : c.poller.phase ≠ .stopped) :
    c'.poller.phase = .stopped ∧ c'.now ≤ c.lastsUntil ∧
        (c'.poller.report.exit = .outputClosed → c'.now = c.lastsUntil) ∨
      c'.poller.phase ≠ .stopped ∧ c'.awaits = false ∧ c'.lastsUntil = c.lastsUntil := by
  cases step with
  | polled phase active due =>
    right
    simp only [lastsUntil, awaits, Poller.isPulling, Poller.reserved, phase, Poller.beginPoll_phase]
    exact ⟨by simp, rfl, (Nat.max_eq_left due).symm⟩
  | reserved _ _ listening => exact absurd listening (ne_true_of_eq_false deaf)
  | @finished p now past pulled phase =>
    left
    have elapsed : (⟨p, .unsent, now, past⟩ : Clocked M).lastsUntil = now := by
      rcases phase with phase | ⟨resume, phase, -, elapsed⟩ <;> simp only [lastsUntil, phase]
      exact Nat.max_eq_left elapsed
    rw [elapsed]
    exact ⟨Poller.endPoll_stopped deaf pulled, Nat.le_refl _, fun _ => rfl⟩
  | @stopped p now past exit waiting reason =>
    refine .inl ⟨rfl, now_le_lastsUntil ⟨p, .unsent, now, past⟩, fun closed => ?_⟩
    rcases reason with ⟨rfl, -⟩ | ⟨-, -, left, pulled, phase⟩
    · cases closed
    · simp only [lastsUntil, phase]
  | departed phase => simp [awaits, Poller.isPulling, Poller.reserved, phase] at answered
  | @returned p =>
    obtain ⟨left, pulled, (phase : p.phase = .pulling left pulled)⟩ := apt (by simp [relay])
    simp [awaits, Poller.isPulling, Poller.reserved, phase] at answered
  | handedOn phase =>
    right
    simp [lastsUntil, awaits, Poller.isPulling, Poller.reserved, phase]
  | @cameEmpty p now past left pulled phase =>
    left
    have elapsed : (⟨p, .back (.ok none), now, past⟩ : Clocked M).lastsUntil = now := by simp only [lastsUntil, phase]
    rw [elapsed]
    exact ⟨Poller.endPoll_stopped deaf pulled, Nat.le_refl _, fun _ => rfl⟩
  | failed failure e phase =>
    right
    simp [lastsUntil, awaits, Poller.isPulling, Poller.reserved, phase]
  | received | hungUp | cancelled => exact .inr ⟨running, answered, rfl⟩
  | @waited p errand now past time later free asleep wake =>
    obtain ⟨tick, wakes⟩ := Poller.exists_wake_of_deaf deaf free asleep running
    have early : time ≤ tick := wake tick wakes
    refine .inr ⟨running, answered, ?_⟩
    calc (⟨p, errand, time, past⟩ : Clocked M).lastsUntil
      _ = max time tick := lastsUntil_of_wake wakes
      _ = max now tick := by rw [Nat.max_eq_right early, Nat.max_eq_right (Nat.le_trans (Nat.le_of_lt later) early)]
      _ = _ := (lastsUntil_of_wake wakes).symm

/-- How far a loop that nobody listens to has come towards the time at which it ends. -/
structure Closing (limit : Millis) (c : Clocked M) : Prop where
  deaf : c.poller.channel.listening = false
  open_ : c.poller.phase ≠ .stopped → c.awaits = false ∧ c.lastsUntil = limit
  ended : ∀ e exit, (e, .ended exit) ∈ c.history → e ≤ limit ∧ (exit = .outputClosed → e = limit)

theorem Step.closing {limit : Millis} (step : Step c c') (apt : c.relay.Apt) (closing : c.Closing limit) :
    c'.Closing limit := by
  have deaf := step.deaf closing.deaf
  by_cases running : c.poller.phase = .stopped
  · obtain ⟨stopped, -, same⟩ := step.final apt running
    exact ⟨deaf, fun running => absurd stopped running, fun e exit mem => closing.ended e exit (same e exit mem)⟩
  · obtain ⟨answered, rfl⟩ := closing.open_ running
    refine ⟨deaf, fun running' => ?_, fun e exit mem => ?_⟩
    · rcases step.closes apt closing.deaf answered running with ⟨stopped, -⟩ | ⟨-, towards⟩
      · exact absurd stopped running'
      · exact towards
    · rcases step.ended_cases mem with mem | ⟨rfl, stopped, rfl⟩
      · exact closing.ended e exit mem
      · rcases step.closes apt closing.deaf answered running with ⟨-, elapsed⟩ | ⟨running', -⟩
        · exact elapsed
        · exact absurd stopped running'

end Clocked

/-! ## how a loop is brought to its end -/

namespace Poller

variable {p : Poller M} {now : Millis}

/-- A loop after a step of its own accord, if it can make one. -/
def onward (now : Millis) (p : Poller M) : Poller M := (p.step? now).getD p

theorem onward_of_stopped (stopped : p.phase = .stopped) : p.onward now = p := by
  simp [onward, step?, stopped]

theorem onward_stop (exit : PollExit) : ((p.stop exit).onward now).phase = .stopped := by
  rw [onward_of_stopped rfl]
  rfl

theorem onward_endPoll (deaf : p.channel.listening = false) (pulled : Nat) :
    ((p.endPoll pulled).onward now).phase = .stopped := by
  rw [onward_of_stopped (endPoll_stopped deaf pulled), endPoll_stopped deaf pulled]

/-- A cancelled loop ends with its second step at the latest. -/
theorem stops_of_cancelled (cancelled : p.cancelled = true) (free : p.isPulling = false) :
    ((p.onward now).onward now).phase = .stopped := by
  have stop (first : p.onward now = p.stop .cancelled) : ((p.onward now).onward now).phase = .stopped :=
    first ▸ onward_stop .cancelled
  cases phase : p.phase with
  | idle | backingOff => exact stop (by simp [onward, step?, phase, cancelled])
  | asking left pulled =>
    cases left with
    | succ left => exact stop (by simp [onward, step?, phase, cancelled])
    | zero =>
      have first : p.onward now = p.endPoll pulled := by simp [onward, step?, phase]
      rw [first]
      cases listening : p.channel.listening with
      | false => exact onward_endPoll listening pulled
      | true =>
        have idle : (p.endPoll pulled).phase = .idle := by simp [endPoll_phase, listening]
        simp [onward, step?, idle, cancelled]
  | pulling left pulled => exact absurd (isPulling_iff.2 ⟨left, pulled, phase⟩) (ne_true_of_eq_false free)
  | stopped => rw [onward_of_stopped phase, onward_of_stopped phase, phase]

/-- A loop that nobody listens to ends with its second step at the latest, when it has nothing to wait for. -/
theorem stops_of_deaf (deaf : p.channel.listening = false) (free : p.isPulling = false)
    (due : ∀ wake ∈ p.wakeAt?, wake ≤ now) : ((p.onward now).onward now).phase = .stopped := by
  cases cancelled : p.cancelled with
  | true => exact stops_of_cancelled cancelled free
  | false =>
    have finish (pulled : Nat) (first : p.onward now = p.endPoll pulled) : ((p.onward now).onward now).phase = .stopped :=
      first ▸ onward_endPoll deaf pulled
    cases phase : p.phase with
    | idle =>
      have due : p.due ≤ now := due p.due (by simp [wakeAt?, phase])
      have first : p.onward now = p.beginPoll now := by simp [onward, step?, phase, cancelled, due]
      rw [first]
      cases most : p.settings.maxMessagesPerPoll with
      | zero => simp [onward, step?, most, endPoll_phase, deaf]
      | succ most' => simp [onward, step?, most, cancelled, deaf]
    | backingOff resume pulled =>
      have elapsed : resume ≤ now := due resume (by simp [wakeAt?, phase])
      exact finish pulled (by simp [onward, step?, phase, cancelled, elapsed])
    | asking left pulled =>
      cases left with
      | zero => exact finish pulled (by simp [onward, step?, phase])
      | succ left =>
        have first : p.onward now = p.stop .outputClosed := by simp [onward, step?, phase, cancelled, deaf]
        exact first ▸ onward_stop .outputClosed
    | pulling left pulled => exact absurd (isPulling_iff.2 ⟨left, pulled, phase⟩) (ne_true_of_eq_false free)
    | stopped => rw [onward_of_stopped phase, onward_of_stopped phase, phase]

/-- A loop that is not cancelled does nothing before the time for which it waits. -/
theorem step?_of_early (active : p.cancelled = false) {wake : Millis} (h : p.wakeAt? = some wake) (early : now < wake) :
    p.step? now = none := by
  unfold wakeAt? at h
  split at h
  · next phase =>
    obtain rfl := Option.some.inj h
    simp [step?, phase, active, Nat.not_le.2 early]
  · next phase =>
    obtain rfl := Option.some.inj h
    simp [step?, phase, active, Nat.not_le.2 early]
  · cases h

theorem answer_settled (outcome : Pulled M) {left pulled : Nat} (phase : p.phase = .pulling left pulled) :
    (p.answer now outcome).isPulling = false ∧ (p.answer now outcome).cancelled = p.cancelled := by
  rcases outcome with failure | _ | m
  · simp [answer, phase, isPulling, reserved]
  · simp [answer, phase]
  · simp [answer, phase, isPulling, reserved]

end Poller

theorem Relay.poller_goOn (r : Relay M) (now : Millis) :
    (r.turn (.loop (.goOn now))).poller = r.poller.onward now := by
  simp only [turn, loopTurn, Poller.onward]
  cases r.poller.step? now <;> rfl

/-- However far a pull has come, it comes to its end. -/
theorem Relay.settles {r : Relay M} (apt : r.Apt) (outcome : Pulled M) (now : Millis) :
    let r' := r.play [.depart, .comeBack outcome, .loop (.takeIn now)]
    r'.poller.isPulling = false ∧ r'.poller.cancelled = r.poller.cancelled := by
  obtain ⟨p, errand, log⟩ := r
  cases free : p.isPulling with
  | true =>
    obtain ⟨left, pulled, phase⟩ := Poller.isPulling_iff.1 free
    cases errand with
    | unsent | away => simpa [play, turn, loopTurn, phase] using Poller.answer_settled outcome phase
    | back outcome' => simpa [play, turn, loopTurn, phase] using Poller.answer_settled outcome' phase
  | false =>
    have home : errand = .unsent := by
      by_contra away
      exact ne_true_of_eq_false free (Poller.isPulling_iff.2 (apt away))
    have play : (⟨p, errand, log⟩ : Relay M).play [.depart, .comeBack outcome, .loop (.takeIn now)] = ⟨p, errand, log⟩ := by
      subst home
      cases phase : p.phase with
      | pulling left pulled => exact absurd (Poller.isPulling_iff.2 ⟨left, pulled, phase⟩) (ne_true_of_eq_false free)
      | idle | asking | backingOff | stopped => simp [Relay.play, turn, loopTurn, phase]
    rw [play]
    exact ⟨free, rfl⟩

namespace Clocked

variable {c c' : Clocked M}

/-- The loop goes on of its own accord. -/
def goOn : ClockTurn M := .act (.loop (.goOn 0))

/-- The loop takes in what the source has answered. -/
def takeIn : ClockTurn M := .act (.loop (.takeIn 0))

/-- The source answers if it has to, and the loop goes on as far as it takes when it is cancelled. -/
def cutShort (outcome : Pulled M) : List (ClockTurn M) :=
  [.act .depart, .act (.comeBack outcome), takeIn, goOn, goOn]

/-- The loop takes in an answer, waits, and goes on as far as it takes when nobody listens to it. -/
def runOut (limit : Millis) : List (ClockTurn M) := [takeIn, .wait limit, goOn, goOn]

theorem now_act (c : Clocked M) (t : RelayTurn M) : (c.turn (.act t)).now = c.now := rfl

theorem poller_act (c : Clocked M) (t : RelayTurn M) : (c.turn (.act t)).poller = (c.relay.turn (t.at c.now)).poller :=
  have relays : (c.turn (.act t)).relay.poller = (c.relay.turn (t.at c.now)).poller := by rw [relay_act]
  relays

theorem poller_goOn (c : Clocked M) : (c.turn goOn).poller = c.poller.onward c.now := by
  rw [goOn, poller_act]
  exact Relay.poller_goOn c.relay c.now

/-- The source answers if it has to, and the loop takes the answer in. -/
theorem settles (apt : c.relay.Apt) (outcome : Pulled M) :
    let c' := c.play [.act .depart, .act (.comeBack outcome), takeIn]
    c'.poller.isPulling = false ∧ c'.poller.cancelled = c.poller.cancelled ∧ c'.now = c.now := by
  intro c'
  have relay : c'.relay = c.relay.play [.depart, .comeBack outcome, .loop (.takeIn c.now)] := by
    simp only [c', play, takeIn, List.foldl_cons, List.foldl_nil, relay_act, now_act]
    rfl
  have settled := Relay.settles apt outcome c.now
  rw [← relay] at settled
  exact ⟨settled.1, settled.2, rfl⟩

/-- A cancelled loop ends while the clock stands still. -/
theorem stopped_cutShort (apt : c.relay.Apt) (cancelled : c.poller.cancelled = true) (outcome : Pulled M) :
    (c.play (cutShort outcome)).poller.phase = .stopped ∧ (c.play (cutShort outcome)).now = c.now := by
  obtain ⟨free, same, now⟩ := settles apt outcome
  have play : c.play (cutShort outcome) =
      ((c.play [.act .depart, .act (.comeBack outcome), takeIn]).turn goOn).turn goOn := rfl
  refine ⟨?_, now⟩
  rw [play, poller_goOn, poller_goOn]
  exact Poller.stops_of_cancelled (same.trans cancelled) free

theorem now_le_turn (c : Clocked M) (t : ClockTurn M) : c.now ≤ (c.turn t).now := by
  cases t with
  | act => exact Nat.le_refl _
  | wait time =>
    simp only [turn]
    split
    · exact Nat.le_max_left _ _
    · exact Nat.le_refl _

/-- A loop that is left alone waits as long as it has to. -/
theorem wake_le_wait (active : c.poller.cancelled = false) {wake : Millis} (h : c.poller.wakeAt? = some wake) :
    wake ≤ (c.turn (.wait c.lastsUntil)).now := by
  rcases Nat.lt_or_ge c.now wake with early | elapsed
  · have free : c.poller.isPulling = false := by
      cases phase : c.poller.phase <;> simp_all [Poller.wakeAt?, Poller.isPulling, Poller.reserved]
    have limit : c.lastsUntil = wake := (lastsUntil_of_wake h).trans (Nat.max_eq_right (Nat.le_of_lt early))
    have waits : c.waitsFor wake = true := by
      simp [waitsFor, free, h, Poller.step?_of_early active h early]
    rw [limit]
    simp only [turn, waits]
    exact Nat.le_max_right _ _
  · exact Nat.le_trans elapsed (now_le_turn c _)

theorem errand_takeIn (c : Clocked M) (outcome : Pulled M) : (c.turn takeIn).errand ≠ .back outcome := by
  have errand : (c.turn takeIn).relay.errand = (c.relay.turn (.loop (.takeIn c.now))).errand := by
    rw [takeIn, relay_act]
    rfl
  intro back
  have back : (c.turn takeIn).relay.errand = .back outcome := back
  rw [errand] at back
  simp only [Relay.turn, Relay.loopTurn] at back
  split at back
  · cases back
  · next unanswered => exact unanswered outcome back

/-- A loop that nobody listens to comes to its end when its time has come. -/
theorem stopped_runOut {limit : Millis} (apt : c.relay.Apt) (closing : c.Closing limit) :
    (c.play (runOut limit)).poller.phase = .stopped := by
  have closing : (c.turn takeIn).Closing limit := by
    rcases step_of_turn apt takeIn with same | step
    · rwa [same]
    · exact step.closing apt closing
  have unanswered := errand_takeIn c
  have play : c.play (runOut limit) = (((c.turn takeIn).turn (.wait limit)).turn goOn).turn goOn := rfl
  rw [play, poller_goOn, poller_goOn]
  generalize c.turn takeIn = c₁ at closing unanswered
  have poller : (c₁.turn (.wait limit)).poller = c₁.poller := congrArg Relay.poller (relay_wait c₁ limit)
  rw [poller]
  show ((c₁.poller.onward (c₁.turn (.wait limit)).now).onward (c₁.turn (.wait limit)).now).phase = .stopped
  by_cases stopped : c₁.poller.phase = .stopped
  · rw [Poller.onward_of_stopped stopped, Poller.onward_of_stopped stopped, stopped]
  obtain ⟨answered, rfl⟩ := closing.open_ stopped
  have free : c₁.poller.isPulling = false := by
    unfold awaits at answered
    split at answered
    · next outcome back => exact absurd back (unanswered outcome)
    · simpa using answered
  cases cancelled : c₁.poller.cancelled with
  | true => exact Poller.stops_of_cancelled cancelled free
  | false =>
    exact Poller.stops_of_deaf closing.deaf free fun wake mem => wake_le_wait cancelled mem

/-! ## the end of a loop -/

theorem hasStopped_iff (p : Poller M) : p.hasStopped = true ↔ p.phase = .stopped := by simp [Poller.hasStopped]

theorem hasStopped_eq_false_iff (p : Poller M) : p.hasStopped = false ↔ p.phase ≠ .stopped := by
  simp [Poller.hasStopped]

/-- A loop that was cancelled ended before, or at that very time. -/
theorem Watched.ended_le (watched : c.Watched) {t e : Millis} {exit : PollExit}
    (cancelled : (t, .did .cancelled) ∈ c.history) (ended : (e, .ended exit) ∈ c.history) : e ≤ t := by
  obtain ⟨before, after, split⟩ := List.append_of_mem ended
  obtain ⟨-, atOnce, -⟩ := watched.founded before e (.ended exit) after split
  rw [split] at cancelled
  rcases List.mem_append.1 cancelled with mem | mem
  · exact Nat.le_of_eq (atOnce t mem).symm
  · rcases List.mem_cons.1 mem with same | mem
    · cases same
    · exact History.le_of_dated watched.dated.2 split mem

/-- No poll begins after a loop was cancelled. -/
theorem Watched.not_polled (watched : c.Watched) {before after : History M} {t : Millis}
    (split : c.history = before ++ (t, .did .cancelled) :: after) (s : Millis) : (s, .did .polled) ∉ after := by
  intro mem
  obtain ⟨middle, rest, rfl⟩ := List.append_of_mem mem
  have uncancelled := watched.founded (before ++ (t, .did .cancelled) :: middle) s (.did .polled) rest (by simp [split])
  exact uncancelled t (by simp)

/-- No pull begins without a poll. -/
theorem Watched.not_departed (watched : c.Watched) (unpolled : ∀ s, (s, .did .polled) ∉ c.history) (s : Millis) :
    (s, .did .departed) ∉ c.history := by
  intro mem
  obtain ⟨before, after, split⟩ := List.append_of_mem mem
  obtain ⟨-, s', polled⟩ := watched.founded before s (.did .departed) after split
  exact unpolled s' (split ▸ List.mem_append_left _ polled)

/-- **A loop stops for the right reason and in time.** A poll loop on a clock, with settings that are valid, on a channel of
any capacity with messages in it, and any series of turns of the loop, its source, the receiver, whoever cancels it, and the
clock. It ends once, for the reason that it reports. Once it is cancelled, the clock stands still until it has ended. Once
nobody listens to it, it ends at its time unless it is cancelled before, and begins no pull. -/
theorem stops_in_time {settings : PollerSettings} {capacity : Nat} {prefill : List M} {p : Poller M}
    (fits : prefill.length ≤ capacity)
    (accepted : Poller.new settings { capacity := capacity, buffer := prefill } = .ok p) (turns : List (ClockTurn M)) :
    let c := ({ poller := p } : Clocked M).play turns
    (c.poller.hasStopped = true ↔ ∃ e exit, (e, .ended exit) ∈ c.history) ∧
    (∀ before e exit after, c.history = before ++ (e, .ended exit) :: after →
      exit = c.poller.report.exit ∧ (∀ e' exit', (e', .ended exit') ∉ before) ∧
        (exit = .cancelled → (e, .did .cancelled) ∈ before) ∧
        (exit = .outputClosed → ∃ d, (d, .did .hungUp) ∈ before)) ∧
    -- whatever the loop waits for when it is cancelled, it ends before the clock moves on
    (∀ t, (t, .did .cancelled) ∈ c.history →
      (c.poller.hasStopped = false → c.now = t) ∧ (∀ e exit, (e, .ended exit) ∈ c.history → e ≤ t) ∧
        ∀ outcome, (c.play (cutShort outcome)).poller.hasStopped = true ∧ (c.play (cutShort outcome)).now = c.now) ∧
    (∀ before t after, c.history = before ++ (t, .did .cancelled) :: after →
      (∀ s, (s, .did .polled) ∉ after) ∧
        ((∀ s, (s, .did .polled) ∉ before) →
          c.poller.report.ticks = 0 ∧ ∀ s, (s, .did .departed) ∉ c.history)) ∧
    (c.poller.channel.listening = false ↔ ∃ d, (d, .did .hungUp) ∈ c.history) ∧
    -- only a pull for which the loop already held a slot still begins, and at that very time
    (∀ before d middle t after, c.history = before ++ (d, .did .hungUp) :: middle ++ (t, .did .departed) :: after →
      t = d ∧ RelayDeed.lastOwn (History.log before) = some .reserved) ∧
    (c.poller.isPulling = true → ∀ t, (c.turn t).now = c.now) ∧
    (c.poller.channel.listening = false → c.poller.hasStopped = false → c.awaits = false →
      (∀ more,
        let c' := c.play more
        (c'.poller.hasStopped = false → c'.now ≤ c.lastsUntil) ∧
          ∀ e exit, (e, .ended exit) ∈ c'.history →
            e ≤ c.lastsUntil ∧ (exit = .outputClosed → e = c.lastsUntil)) ∧
        (c.play (runOut c.lastsUntil)).poller.hasStopped = true) := by
  intro c
  obtain ⟨rfl, -⟩ := Poller.new_eq_ok_iff.1 accepted
  have home : ({ poller := { settings := settings, channel := { capacity := capacity, buffer := prefill } } } :
      Clocked M).relay.Apt := fun away => absurd rfl away
  have watched : c.Watched :=
    play_induction home (watched_start rfl rfl rfl rfl) (fun _ _ apt step watched => step.watched apt watched) turns
  have apt : c.relay.Apt := apt_play home turns
  have sound : c.relay.Sound { capacity := capacity, buffer := prefill } := by
    obtain ⟨relayTurns, relay⟩ := exists_relay_turns
      ({ poller := { settings := settings, channel := { capacity := capacity, buffer := prefill } } } : Clocked M) turns
    rw [relay]
    exact Relay.play_induction (P := (Relay.Sound · _)) (Relay.sound_start rfl rfl rfl fits)
      (fun _ _ step sound => step.sound sound) relayTurns
  simp only [hasStopped_iff, hasStopped_eq_false_iff]
  refine ⟨⟨fun stopped => (watched.reports stopped).imp fun e mem => ⟨_, mem⟩,
      fun ⟨e, exit, mem⟩ => (watched.ended e exit mem).1⟩,
    fun before e exit after split => ?_, fun t mem => ⟨fun running => (watched.still running t mem).symm,
      fun e exit => watched.ended_le mem, fun outcome => stopped_cutShort apt (watched.cancelled.2 ⟨t, mem⟩) outcome⟩,
    fun before t after split => ⟨watched.not_polled split, fun early => ?_⟩, watched.deaf,
    fun before d middle t after split => ?_, fun pulling t => ?_, fun deaf running answered => ?_⟩
  · obtain ⟨once, -, due⟩ := watched.founded before e (.ended exit) after split
    have mem : (e, .ended exit) ∈ c.history := by simp [split]
    refine ⟨(watched.ended e exit mem).2.symm, once, ?_, ?_⟩
    · rintro rfl
      exact due
    · rintro rfl
      exact due
  · have unpolled (s : Millis) : (s, .did .polled) ∉ c.history := by
      simp [split, early s, watched.not_polled split s]
    exact ⟨watched.fresh unpolled, watched.not_departed unpolled⟩
  · have split' : c.history = (before ++ (d, .did .hungUp) :: middle) ++ (t, .did .departed) :: after := split
    have now := (watched.founded _ t (.did .departed) after split').1 d (by simp)
    have log : c.relay.log =
        History.log before ++ .hungUp :: History.log middle ++ .departed :: History.log after := by
      simp [relay, split, History.log, ClockDeed.did?]
    exact ⟨now.symm, (sound.founded.departed_after log (.inr rfl)).1⟩
  · rcases step_of_turn apt t with same | step
    · rw [same]
    · exact step.now_eq (.inl pulling)
  · have closing : c.Closing c.lastsUntil :=
      ⟨deaf, fun _ => ⟨answered, rfl⟩, fun e exit mem => absurd (watched.ended e exit mem).1 running⟩
    refine ⟨fun more => ?_, stopped_runOut apt closing⟩
    have later : (c.play more).Closing c.lastsUntil :=
      play_induction apt closing (fun _ _ apt step closing => step.closing apt closing) more
    exact ⟨fun running => (later.open_ running).2 ▸ now_le_lastsUntil _, later.ended⟩

/-- A pull of the first poll fails, and the receiver leaves while it is under way. The loop backs off to the end, and ends
then. A loop that is cancelled in a full channel ends at once. -/
theorem stops_after_backoff :
    let p : Poller Nat := { settings := {}, channel := { capacity := 1 } }
    let full : Poller Nat := { settings := {}, channel := { capacity := 1, buffer := [7] } }
    let turns : List (ClockTurn Nat) :=
      [goOn, goOn, .act .depart, .act (.loop .hangUp), .act (.comeBack (.error (.error "offline")))]
    let stalled : List (ClockTurn Nat) := [goOn, .wait 40, .act (.loop .cancel)]
    let c := ({ poller := p } : Clocked Nat).play turns
    let c' := ({ poller := full } : Clocked Nat).play stalled
    ([] : List Nat).length ≤ 1 ∧ Poller.new {} { capacity := 1 } = .ok p ∧
      c.poller.channel.listening = false ∧ c.poller.hasStopped = false ∧ c.awaits = false ∧ c.lastsUntil = 1000 ∧
      (c.play (runOut 1000)).poller.hasStopped = true ∧ (c.play (runOut 1000)).now = 1000 ∧
      (c.play (runOut 1000)).poller.report.exit = .outputClosed ∧
      [7].length ≤ 1 ∧ Poller.new {} { capacity := 1, buffer := [7] } = .ok full ∧
      c'.poller.cancelled = true ∧ c'.now = 40 ∧ (c'.play (cutShort (.ok none))).poller.hasStopped = true ∧
      (c'.play (cutShort (.ok none))).now = 40 ∧ (c'.play (cutShort (.ok none))).poller.report.exit = .cancelled := by
  intro p full turns stalled c c'
  have accepted : Poller.new {} { capacity := 1 } = .ok p := Poller.new_eq_ok_iff.2 ⟨rfl, by decide, by decide⟩
  have accepted' : Poller.new {} { capacity := 1, buffer := [7] } = .ok full :=
    Poller.new_eq_ok_iff.2 ⟨rfl, by decide, by decide⟩
  have deaf : c.poller.channel.listening = false := by decide +kernel
  have running : c.poller.hasStopped = false := by decide +kernel
  have answered : c.awaits = false := by decide +kernel
  have limit : c.lastsUntil = 1000 := by decide +kernel
  obtain ⟨-, -, -, -, -, -, -, closes⟩ := stops_in_time (by decide : ([] : List Nat).length ≤ 1) accepted turns
  obtain ⟨-, stopped⟩ := closes deaf running answered
  obtain ⟨-, -, cut, -⟩ := stops_in_time (by decide : [7].length ≤ 1) accepted' stalled
  have now : c'.now = 40 := by decide +kernel
  have history : c'.history = [(0, .did .polled), (40, .did .cancelled)] := by decide +kernel
  have cancelled : (40, .did .cancelled) ∈ c'.history := by simp [history]
  obtain ⟨-, -, cut⟩ := cut 40 cancelled
  exact ⟨by decide, accepted, deaf, running, answered, limit, limit ▸ stopped, by decide +kernel, by decide +kernel,
    by decide, accepted', by decide +kernel, now, (cut (.ok none)).1, (cut (.ok none)).2.trans now, by decide +kernel⟩

end Clocked

end CorrelationBarrier
