import CorrelationBarrier.Proofs.Poller.Stopping

/-!
# The cadence of a poll loop

A poll loop on a clock begins a poll exactly when its tick is due and the poll before it has ended. Ticks that were missed
are not made up for, and after a pull that failed no other begins before the backoff is over.

* `History.due`, `History.rests`, `History.inPoll` — what a history says about the next poll;
* `ClockDeed.KeepsTime` — when polls and pulls may begin, after what came before them;
* `Clocked.Regular` — what the state of a loop says about its cadence, kept by every step: `Step.regular`;
* `Clocked.keeps_cadence` — whatever the turns.
-/

namespace CorrelationBarrier

variable {M : Type}

theorem le_nextDue (interval due now : Millis) : due ≤ nextDue interval due now := by
  unfold nextDue
  split
  · exact Nat.le_add_right _ _
  · next late =>
    have early : due ≤ now := Nat.le_trans (Nat.le_add_right _ _) (Nat.le_of_not_le late)
    exact Nat.le_trans early (Nat.le_add_right _ _)

/-- A tick that comes within the slack counts as one that came in time, so the next one may be due that much earlier than
a whole interval later. -/
theorem apart_nextDue (interval : Millis) {due now : Millis} (h : due ≤ now) :
    now + (interval - tickSlack) ≤ max now (nextDue interval due now) := by
  unfold nextDue
  split <;> simp only [Millis, tickSlack] at * <;> omega

namespace History

/-- When the next tick is due after what has happened. -/
def due (interval : Millis) (history : History M) : Millis :=
  history.foldl (fun due entry => match entry.2 with
    | .did .polled => nextDue interval due entry.1
    | _ => due) 0

/-- When the polls ended after which the loop went on. -/
def rests (history : History M) : List Millis :=
  history.filterMap fun entry => match entry.2 with
    | .rested => some entry.1
    | _ => none

/-- When the latest of these polls ended, or the loop began. -/
def restedAt (history : History M) : Millis := (rests history).getLastD 0

/-- Whether the latest poll has not ended. -/
def inPoll (history : History M) : Bool :=
  history.foldl (fun inPoll entry => match entry.2 with
    | .did .polled => true
    | .rested => false
    | _ => inPoll) false

variable {history : History M}

@[simp] theorem due_concat (interval t : Millis) (d : ClockDeed M) :
    due interval (history ++ [(t, d)]) = match d with
      | .did .polled => nextDue interval (due interval history) t
      | _ => due interval history := by
  simp only [due, List.foldl_append, List.foldl_cons, List.foldl_nil]

@[simp] theorem inPoll_concat (t : Millis) (d : ClockDeed M) :
    inPoll (history ++ [(t, d)]) = match d with
      | .did .polled => true
      | .rested => false
      | _ => inPoll history := by
  simp only [inPoll, List.foldl_append, List.foldl_cons, List.foldl_nil]

@[simp] theorem rests_concat (t : Millis) (d : ClockDeed M) :
    rests (history ++ [(t, d)]) = match d with
      | .rested => rests history ++ [t]
      | _ => rests history := by
  rcases d with d | _ | exit <;> simp [rests]

@[simp] theorem restedAt_concat (t : Millis) (d : ClockDeed M) :
    restedAt (history ++ [(t, d)]) = match d with
      | .rested => t
      | _ => restedAt history := by
  rcases d with d | _ | exit <;> simp [restedAt]

/-- No poll ends in the future. -/
theorem restedAt_le {now : Millis} (past : ∀ entry ∈ history, entry.1 ≤ now) : restedAt history ≤ now := by
  induction history using List.reverseRecOn with
  | nil => exact Nat.zero_le _
  | append_singleton history entry ih =>
    obtain ⟨t, d⟩ := entry
    have earlier := ih fun entry mem => past entry (by simp [mem])
    have last : t ≤ now := past (t, d) (by simp)
    rw [restedAt_concat]
    split
    · exact last
    · exact earlier

end History

/-- When polls and pulls may begin after what came before them. A poll begins when its tick is due and the poll before it
has ended. -/
def ClockDeed.KeepsTime (settings : PollerSettings) (before : History M) (t : Millis) : ClockDeed M → Prop
  | .did .polled =>
    History.inPoll before = false ∧ t = max (History.due settings.intervalMs before) (History.restedAt before)
  | .rested => History.inPoll before = true
  | .did .departed => ∀ s failure, (s, .did (.returned (.error failure))) ∈ before → s + settings.errorBackoffMs ≤ t
  | _ => True

namespace History

variable {settings : PollerSettings} {history : History M}

/-- Ticks are not made up for: after a poll the next one is due an interval later, apart from the slack. -/
theorem apart_of_each (each : Each (ClockDeed.KeepsTime settings) history) {s : Millis}
    (mem : (s, .did .polled) ∈ history) :
    s + (settings.intervalMs - tickSlack) ≤ max s (due settings.intervalMs history) := by
  induction history using List.reverseRecOn with
  | nil => cases mem
  | append_singleton history entry ih =>
    obtain ⟨t, d⟩ := entry
    have later : due settings.intervalMs history ≤ due settings.intervalMs (history ++ [(t, d)]) := by
      rw [due_concat]
      split
      · exact le_nextDue _ _ _
      · exact Nat.le_refl _
    rcases List.mem_append.1 mem with mem | mem
    · refine Nat.le_trans (ih each.of_append mem) (Nat.max_le.2 ⟨Nat.le_max_left _ _, ?_⟩)
      exact Nat.le_trans later (Nat.le_max_right _ _)
    · obtain ⟨rfl, rfl⟩ : s = t ∧ .did .polled = d := by simpa using mem
      obtain ⟨-, start⟩ := each history s (.did .polled) [] rfl
      rw [due_concat]
      exact apart_nextDue _ (start ▸ Nat.le_max_left _ _)

/-- Before the first poll begins, no poll ends. -/
theorem fresh_of_each (each : Each (ClockDeed.KeepsTime settings) history)
    (unpolled : ∀ t, (t, .did .polled) ∉ history) :
    due settings.intervalMs history = 0 ∧ inPoll history = false ∧ restedAt history = 0 := by
  induction history using List.reverseRecOn with
  | nil => exact ⟨rfl, rfl, rfl⟩
  | append_singleton history entry ih =>
    obtain ⟨t, d⟩ := entry
    have fresh := ih each.of_append fun t mem => unpolled t (by simp [mem])
    rw [due_concat, inPoll_concat, restedAt_concat]
    rcases d with d | _ | exit
    case did =>
      have other : d ≠ .polled := by
        rintro rfl
        exact unpolled t (by simp)
      cases d <;> first | exact absurd rfl other | exact fresh
    case rested =>
      have busy : inPoll history = true := each history t .rested [] rfl
      rw [fresh.2.1] at busy
      cases busy
    case ended => exact fresh

/-- Until the next poll begins, a poll ends at most once. -/
theorem rests_of_each {before middle : History M} {s : Millis}
    (each : Each (ClockDeed.KeepsTime settings) (before ++ (s, .did .polled) :: middle))
    (unpolled : ∀ t, (t, .did .polled) ∉ middle) :
    let history := before ++ (s, .did .polled) :: middle
    due settings.intervalMs history = nextDue settings.intervalMs (due settings.intervalMs before) s ∧
      (rests middle = [] ∧ inPoll history = true ∨
        ∃ e, rests middle = [e] ∧ inPoll history = false ∧ restedAt history = e) := by
  induction middle using List.reverseRecOn with
  | nil => exact ⟨due_concat _ _ _, .inl ⟨rfl, inPoll_concat _ _⟩⟩
  | append_singleton middle entry ih =>
    obtain ⟨t, d⟩ := entry
    have whole : before ++ (s, .did .polled) :: (middle ++ [(t, d)]) =
        (before ++ (s, .did .polled) :: middle) ++ [(t, d)] := by simp
    rw [whole] at each ⊢
    dsimp only
    obtain ⟨same, once⟩ := ih each.of_append fun t mem => unpolled t (by simp [mem])
    have timely := each _ t d [] rfl
    rw [due_concat, inPoll_concat, restedAt_concat, rests_concat]
    rcases d with d | _ | exit
    case did =>
      have other : d ≠ .polled := by
        rintro rfl
        exact unpolled t (by simp)
      cases d <;> first | exact absurd rfl other | exact ⟨same, once⟩
    case rested =>
      have open_ : inPoll (before ++ (s, .did .polled) :: middle) = true := timely
      have none : rests middle = [] := by
        rcases once with ⟨none, -⟩ | ⟨e, -, closed, -⟩
        · exact none
        · rw [open_] at closed
          cases closed
      exact ⟨same, .inr ⟨t, by simp [none], rfl, rfl⟩⟩
    case ended => exact ⟨same, once⟩

end History

@[simp] theorem Poller.endPoll_due (p : Poller M) (pulled : Nat) : (p.endPoll pulled).due = p.due := by
  unfold endPoll
  dsimp only
  split <;> rfl

namespace Clocked

variable {settings : PollerSettings} {c c' : Clocked M}

/-- The backoff after a failure at a time has passed, or no pull can begin before it has. -/
def HoldsOff (settings : PollerSettings) (c : Clocked M) (t : Millis) : Prop :=
  t + settings.errorBackoffMs ≤ c.now ∨ c.poller.phase = .stopped ∨
    (t = c.now ∧ ∃ failure, c.errand = .back (.error failure)) ∨
    ∃ resume pulled, c.poller.phase = .backingOff resume pulled ∧ t + settings.errorBackoffMs ≤ resume

/-- Between polls the time does not go by at which the next poll begins. -/
def Rested (c : Clocked M) : Prop :=
  History.inPoll c.history = false ∧ c.now ≤ max c.poller.due (History.restedAt c.history)

/-- What the state of a loop says about its cadence. -/
structure Regular (settings : PollerSettings) (c : Clocked M) : Prop where
  dated : c.Dated
  given : c.poller.settings = settings
  due : c.poller.due = History.due settings.intervalMs c.history
  idle : c.poller.phase = .idle → c.Rested
  busy : c.poller.phase ≠ .idle → c.poller.phase ≠ .stopped → History.inPoll c.history = true
  failures : ∀ t failure, (t, .did (.returned (.error failure))) ∈ c.history → c.HoldsOff settings t
  timely : History.Each (ClockDeed.KeepsTime settings) c.history

/-! ## what a step keeps -/

theorem closing_cases (p : Poller M) :
    p.channel.listening = true ∧ p.closing = .rested ∨ p.channel.listening = false ∧ p.closing = .ended .outputClosed := by
  unfold Poller.closing
  cases p.channel.listening <;> simp

theorem Step.settings_eq (step : Step c c') : c'.poller.settings = c.poller.settings := by
  cases step <;> simp

theorem Step.due {interval : Millis} (step : Step c c') (given : c.poller.settings.intervalMs = interval)
    (due : c.poller.due = History.due interval c.history) : c'.poller.due = History.due interval c'.history := by
  cases step with
  | @finished p | @cameEmpty p =>
    rcases closing_cases p with ⟨-, closing⟩ | ⟨-, closing⟩ <;>
      simpa only [closing, History.due_concat, Poller.endPoll_due] using due
  | polled => simp_all [Poller.beginPoll]
  | reserved | stopped | departed | returned | handedOn | failed | received | hungUp | cancelled =>
    rw [History.due_concat]
    exact due
  | waited => exact due

theorem Step.rested (step : Step c c') (apt : c.relay.Apt) (rested : c.poller.phase = .idle → c.Rested) :
    c'.poller.phase = .idle → c'.Rested := by
  intro idle'
  cases step with
  | @finished p now | @cameEmpty p now =>
    rcases closing_cases p with ⟨-, closing⟩ | ⟨deaf, -⟩
    · simp only [Rested, closing, History.inPoll_concat, History.restedAt_concat]
      exact ⟨trivial, Nat.le_max_right _ _⟩
    · rw [Poller.endPoll_stopped deaf] at idle'
      cases idle'
  | polled | reserved | stopped | handedOn | failed => simp at idle'
  | departed phase => exact absurd (phase.symm.trans idle') (by simp)
  | @returned p =>
    obtain ⟨left, pulled, phase⟩ := apt (by simp [relay])
    exact absurd (phase.symm.trans idle') (by simp)
  | received | hungUp | cancelled =>
    unfold Rested
    rw [History.inPoll_concat, History.restedAt_concat]
    exact rested idle'
  | @waited p errand now past time later free asleep wake =>
    have early : time ≤ p.due := wake p.due (by simp [Poller.wakeAt?, show p.phase = _ from idle'])
    exact ⟨(rested idle').1, Nat.le_trans early (Nat.le_max_left _ _)⟩

theorem Step.busy (step : Step c c')
    (busy : c.poller.phase ≠ .idle → c.poller.phase ≠ .stopped → History.inPoll c.history = true) :
    c'.poller.phase ≠ .idle → c'.poller.phase ≠ .stopped → History.inPoll c'.history = true := by
  intro awake running
  cases step with
  | @finished p | @cameEmpty p =>
    rcases closing_cases p with ⟨listening, -⟩ | ⟨deaf, -⟩
    · simp [Poller.endPoll_phase, listening] at awake
    · exact absurd (Poller.endPoll_stopped deaf _) running
  | polled => exact History.inPoll_concat _ _
  | stopped => exact absurd rfl running
  | reserved phase | handedOn phase | failed _ _ phase =>
    rw [History.inPoll_concat]
    exact busy (by simp [phase]) (by simp [phase])
  | departed | returned | received | hungUp | cancelled =>
    rw [History.inPoll_concat]
    exact busy awake running
  | waited => exact busy awake running

theorem HoldsOff.expired {t : Millis} (holds : c.HoldsOff settings t) (running : c.poller.phase ≠ .stopped)
    (answered : ∀ failure, c.errand ≠ .back (.error failure))
    (awake : ∀ resume pulled, c.poller.phase = .backingOff resume pulled → resume ≤ c.now) :
    t + settings.errorBackoffMs ≤ c.now := by
  rcases holds with elapsed | stopped | ⟨-, failure, back⟩ | ⟨resume, pulled, phase, before⟩
  · exact elapsed
  · exact absurd stopped running
  · exact absurd back (answered failure)
  · exact Nat.le_trans before (awake resume pulled phase)

theorem Step.holdsOff (step : Step c c') (apt : c.relay.Apt) (given : c.poller.settings = settings) {t : Millis}
    (holds : c.HoldsOff settings t) : c'.HoldsOff settings t := by
  cases step with
  | polled phase | reserved phase | departed phase | handedOn phase =>
    exact .inl (holds.expired (by simp [phase]) (by simp) (by simp [phase]))
  | @finished p now past pulled phase =>
    refine .inl (holds.expired ?_ (by simp) fun resume' pulled' phase' => ?_)
    · rcases phase with phase | ⟨resume, phase, -⟩ <;> simp [phase]
    · dsimp only at phase'
      simp only [phase', reduceCtorEq, Phase.backingOff.injEq, false_or] at phase
      obtain ⟨resume, ⟨rfl, -⟩, -, elapsed⟩ := phase
      exact elapsed
  | stopped => exact .inr (.inl rfl)
  | cameEmpty phase => exact .inl (holds.expired (by simp [phase]) (by simp) (by simp [phase]))
  | @returned p =>
    obtain ⟨left, pulled, (phase : p.phase = .pulling left pulled)⟩ := apt (by simp [relay])
    exact .inl (holds.expired (by simp [phase]) (by simp) (by simp [phase]))
  | @failed p now past left pulled failure e phase =>
    rcases holds with elapsed | stopped | ⟨just, -⟩ | ⟨resume, pulled', phase', -⟩
    · exact .inl elapsed
    · exact absurd (phase.symm.trans stopped) (by simp)
    · exact .inr (.inr (.inr ⟨_, pulled, rfl, Nat.le_of_eq (by rw [just, ← given])⟩))
    · exact absurd (phase.symm.trans phase') (by simp)
  | received | hungUp | cancelled => exact holds
  | @waited p errand now past time later free =>
    rcases holds with elapsed | stopped | ⟨-, failure, back⟩ | backing
    · exact .inl (Nat.le_trans elapsed (Nat.le_of_lt later))
    · exact .inr (.inl stopped)
    · have pulling := Poller.isPulling_iff.2 (apt (by simp [relay, show errand = _ from back]))
      exact absurd pulling (ne_true_of_eq_false free)
    · exact .inr (.inr (.inr backing))

theorem Step.failure_cases (step : Step c c') {t : Millis} {failure : Failure String}
    (mem : (t, .did (.returned (.error failure))) ∈ c'.history) :
    (t, .did (.returned (.error failure))) ∈ c.history ∨ t = c'.now ∧ c'.errand = .back (.error failure) := by
  cases step with
  | @finished p | @cameEmpty p =>
    rcases closing_cases p with ⟨-, closing⟩ | ⟨-, closing⟩ <;> exact .inl (by simpa [closing] using mem)
  | @returned p now past outcome =>
    refine Or.imp_right (fun new : t = now ∧ .error failure = outcome => ⟨new.1, by rw [new.2]⟩) ?_
    simpa using mem
  | polled | reserved | stopped | departed | handedOn | failed | received | hungUp | cancelled =>
    exact .inl (by simpa using mem)
  | waited => exact .inl mem

/-- A poll that ends was under way. -/
theorem keepsTime_closing {past : History M} {now : Millis} (p : Poller M) (busy : History.inPoll past = true) :
    p.closing.KeepsTime settings past now := by
  rcases closing_cases p with ⟨-, closing⟩ | ⟨-, closing⟩ <;> rw [closing]
  · exact busy
  · trivial

theorem Step.timely (step : Step c c') (regular : c.Regular settings) :
    History.Each (ClockDeed.KeepsTime settings) c'.history := by
  have timely := regular.timely
  cases step with
  | @polled p now past phase active due =>
    obtain ⟨closed, soon⟩ := regular.idle phase
    have latest : max p.due (History.restedAt past) ≤ now := Nat.max_le.2 ⟨due, History.restedAt_le regular.dated.1⟩
    have start : now = max p.due (History.restedAt past) := Nat.le_antisymm soon latest
    exact History.each_concat timely ⟨closed, (show p.due = _ from regular.due) ▸ start⟩
  | @finished p now past pulled phase =>
    refine History.each_concat timely (keepsTime_closing p (regular.busy ?_ ?_)) <;>
      rcases phase with phase | ⟨resume, phase, -⟩ <;> simp [phase]
  | departed phase =>
    refine History.each_concat timely fun s failure mem => ?_
    exact (regular.failures s failure mem).expired (by simp [phase]) (by simp) (by simp [phase])
  | @cameEmpty p now past left pulled phase =>
    refine History.each_concat (History.each_concat timely trivial) (keepsTime_closing p ?_)
    rw [History.inPoll_concat]
    exact regular.busy (by simp [phase]) (by simp [phase])
  | reserved | stopped | returned | handedOn | failed | received | hungUp | cancelled =>
    exact History.each_concat timely trivial
  | waited => exact timely

theorem Step.regular (step : Step c c') (apt : c.relay.Apt) (regular : c.Regular settings) : c'.Regular settings where
  dated := step.dated regular.dated
  given := step.settings_eq.trans regular.given
  due := step.due (by rw [regular.given]) regular.due
  idle := step.rested apt regular.idle
  busy := step.busy regular.busy
  failures := fun t failure mem => by
    rcases step.failure_cases mem with mem | ⟨just, back⟩
    · exact step.holdsOff apt regular.given (regular.failures t failure mem)
    · exact .inr (.inr (.inl ⟨just, failure, back⟩))
  timely := step.timely regular

theorem regular_start {p : Poller M} (phase : p.phase = .idle) (due : p.due = 0) :
    ({ poller := p } : Clocked M).Regular p.settings where
  dated := ⟨fun entry mem => absurd mem List.not_mem_nil, List.Pairwise.nil⟩
  given := rfl
  due := due
  idle := fun _ => ⟨rfl, Nat.zero_le _⟩
  busy := fun awake => absurd phase awake
  failures := fun t failure mem => absurd mem List.not_mem_nil
  timely := fun before t d after h => by simp at h

/-! ## the cadence -/

theorem turn_wait_now (c : Clocked M) : c.turn (.wait c.now) = c := by
  simp only [turn, Nat.max_self]
  split <;> rfl

/-- A loop between polls that is left alone waits until the next poll can begin. -/
theorem Regular.turn_wait (regular : c.Regular settings) (idle : c.poller.phase = .idle)
    (active : c.poller.cancelled = false) :
    let start := max c.poller.due (History.restedAt c.history)
    c.poller.due ≤ start ∧ c.turn (.wait start) = { c with now := start } := by
  intro start
  have soon : c.now ≤ start := (regular.idle idle).2
  have past : History.restedAt c.history ≤ c.now := History.restedAt_le regular.dated.1
  refine ⟨Nat.le_max_left _ _, ?_⟩
  rcases Nat.lt_or_ge c.now c.poller.due with early | elapsed
  · have start_eq : start = c.poller.due := Nat.max_eq_left (Nat.le_trans past (Nat.le_of_lt early))
    have wake : c.poller.wakeAt? = some c.poller.due := by simp [Poller.wakeAt?, idle]
    have free : c.poller.isPulling = false := by simp [Poller.isPulling, Poller.reserved, idle]
    have waits : c.waitsFor start = true := by
      simp [waitsFor, free, wake, start_eq, Poller.step?_of_early active wake early]
    simp only [turn, waits, if_true, Nat.max_eq_right soon]
  · have start_eq : start = c.now := Nat.le_antisymm (Nat.max_le.2 ⟨elapsed, past⟩) soon
    rw [start_eq, turn_wait_now]

theorem history_beginPoll (idle : c.poller.phase = .idle) (active : c.poller.cancelled = false)
    (due : c.poller.due ≤ c.now) : (c.turn goOn).history = c.history ++ [(c.now, .did .polled)] := by
  obtain ⟨p, errand, now, past⟩ := c
  dsimp only at idle active due
  have step : p.step? now = some (p.beginPoll now) := by simp [Poller.step?, idle, active, due]
  simp only [goOn, turn, relay, RelayTurn.at, LoopTurn.at, Relay.turn, Relay.loopTurn, step, become_eq]
  simp [tidings, Phase.deed?, Poller.closed?, idle]

/-- **A loop keeps its cadence.** A poll loop on a clock, with settings that are valid, on any channel, and any series of
turns of the loop, its source, the receiver, whoever cancels it, and the clock. The first poll begins at once, and each
other one when its tick is due and the poll before it has ended; a loop between polls that is not cancelled waits for
exactly that time. Polls are at least an interval apart except for the slack, and after a pull that failed none begins
before the backoff is over. -/
theorem keeps_cadence {settings : PollerSettings} {channel : Channel M} {p : Poller M}
    (accepted : Poller.new settings channel = .ok p) (turns : List (ClockTurn M)) :
    let c := ({ poller := p } : Clocked M).play turns
    let interval := settings.intervalMs
    (∀ before s after, c.history = before ++ (s, .did .polled) :: after → (∀ t, (t, .did .polled) ∉ before) → s = 0) ∧
    (∀ before s middle s' after,
      c.history = before ++ (s, .did .polled) :: middle ++ (s', .did .polled) :: after →
        (∀ t, (t, .did .polled) ∉ middle) →
          ∃ e, History.rests middle = [e] ∧
            s' = max (nextDue interval (History.due interval before) s) e) ∧
    (c.poller.phase = .idle →
      let start := max (History.due interval c.history) (History.restedAt c.history)
      c.now ≤ start ∧
        (c.poller.cancelled = false → (c.play [.wait start, goOn]).history = c.history ++ [(start, .did .polled)])) ∧
    (∀ before s middle s' after,
      c.history = before ++ (s, .did .polled) :: middle ++ (s', .did .polled) :: after →
        s + (interval - tickSlack) ≤ s') ∧
    (∀ before t failure middle t' after,
      c.history = before ++ (t, .did (.returned (.error failure))) :: middle ++ (t', .did .departed) :: after →
        t + settings.errorBackoffMs ≤ t') := by
  intro c interval
  obtain ⟨rfl, -⟩ := Poller.new_eq_ok_iff.1 accepted
  have home : ({ poller := { settings := settings, channel := channel } } : Clocked M).relay.Apt :=
    fun away => absurd rfl away
  have regular : c.Regular settings :=
    play_induction home (regular_start rfl rfl) (fun _ _ apt step regular => step.regular apt regular) turns
  have timely := regular.timely
  refine ⟨fun before s after split first => ?_, fun before s middle s' after split unpolled => ?_, fun idle => ?_,
    fun before s middle s' after split => ?_, fun before t failure middle t' after split => ?_⟩
  · obtain ⟨-, start⟩ := timely before s (.did .polled) after split
    obtain ⟨due, -, rested⟩ := History.fresh_of_each (timely.of_split split) first
    rw [start, due, rested]
    rfl
  · obtain ⟨closed, start⟩ := timely _ s' (.did .polled) after split
    obtain ⟨due, ⟨-, open_⟩ | ⟨e, rests, -, rested⟩⟩ := History.rests_of_each (timely.of_split split) unpolled
    · rw [open_] at closed
      cases closed
    · exact ⟨e, rests, by rw [start, due, rested]⟩
  · intro start
    have same : start = max c.poller.due (History.restedAt c.history) := by rw [regular.due]
    refine ⟨same ▸ (regular.idle idle).2, fun active => ?_⟩
    obtain ⟨due, wait⟩ := regular.turn_wait idle active
    rw [← same] at due wait
    have play : c.play [.wait start, goOn] = (c.turn (.wait start)).turn goOn := rfl
    rw [play, wait]
    exact history_beginPoll (c := { c with now := start }) idle active due
  · obtain ⟨-, start⟩ := timely _ s' (.did .polled) after split
    have split' : c.history = before ++ (s, .did .polled) :: (middle ++ (s', .did .polled) :: after) := by
      simpa using split
    have mem : (s', .did .polled) ∈ middle ++ (s', .did .polled) :: after := by simp
    have later : s ≤ s' := History.le_of_dated regular.dated.2 split' mem
    have due := History.apart_of_each (timely.of_split split) (s := s) (by simp)
    exact Nat.le_trans due (Nat.max_le.2 ⟨later, start ▸ Nat.le_max_left _ _⟩)
  · exact timely _ t' (.did .departed) after split t failure (by simp)

/-- Three polls with an interval of ten. The second stalls in a full channel and then backs off, so that the third begins
long after its tick was due. -/
theorem cadence_of_three_polls :
    let settings : PollerSettings := { intervalMs := 10, errorBackoffMs := 25 }
    let p : Poller Nat := { settings := settings, channel := { capacity := 1 } }
    let pull (outcome : Pulled Nat) : List (ClockTurn Nat) := [goOn, .act .depart, .act (.comeBack outcome), takeIn]
    let turns : List (ClockTurn Nat) :=
      [[goOn], pull (.ok (some 7)), [goOn, .wait 10, goOn, .wait 34, .act (.loop .receive)],
        pull (.error (.error "offline")), [.wait 59, goOn, goOn]].flatten
    let first : History Nat := [(0, .did .polled), (0, .did .reserved), (0, .did .departed),
      (0, .did (.returned (.ok (some 7)))), (0, .did (.sent 7)), (0, .rested)]
    let second : History Nat := [(34, .did (.received 7)), (34, .did .reserved), (34, .did .departed),
      (34, .did (.returned (.error (.error "offline")))), (34, .did .freed), (59, .rested)]
    let c := ({ poller := p } : Clocked Nat).play turns
    Poller.new settings { capacity := 1 } = .ok p ∧
      c.history = first ++ (10, .did .polled) :: second ++ (59, .did .polled) :: [] ∧
      (∃ e, History.rests second = [e] ∧ 59 = max (nextDue 10 (History.due 10 first) 10) e) ∧
      nextDue 10 (History.due 10 first) 10 = 20 ∧ 10 + (10 - tickSlack) ≤ 59 ∧ History.due 10 c.history = 69 := by
  intro settings p pull turns first second c
  have accepted : Poller.new settings { capacity := 1 } = .ok p := Poller.new_eq_ok_iff.2 ⟨rfl, by decide, by decide⟩
  have history : c.history = first ++ (10, .did .polled) :: second ++ (59, .did .polled) :: [] := by decide +kernel
  obtain ⟨-, starts, -, apart, -⟩ := keeps_cadence accepted turns
  have unpolled (t : Millis) : (t, .did .polled) ∉ second := by simp [second]
  exact ⟨accepted, history, starts first 10 second 59 [] history unpolled, rfl, apart first 10 second 59 [] history,
    by rw [history]; rfl⟩

end Clocked

end CorrelationBarrier
