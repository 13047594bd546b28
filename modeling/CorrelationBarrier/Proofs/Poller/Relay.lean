import CorrelationBarrier.Poller.Loop
import Mathlib.Data.List.Induction

/-!
# A poll loop at work

A poll loop between a source, which may take its time over a pull, and a receiver. The loop, the source, the receiver and
whoever cancels the loop act in any order and at any times, so that a receiver may also leave and a loop may also be
cancelled while a pull is under way.

* `Errand` — how far the source is with a pull; `Relay` — the loop with its errand, and the log of what has happened;
* `RelayTurn`, `Relay.turn`, `Relay.play` — what may come next, and a series of such turns;
* `Relay.Step` — the turns that change something as a relation, one rule for each; `Relay.step_of_turn`;
* `Relay.play_induction` — what every step keeps holds in every run.
-/

namespace CorrelationBarrier

/-- How far the source is with the pull for which a loop holds a slot. -/
inductive Errand (M : Type) where
  /-- The source has not begun, or there is nothing to do for it. -/
  | unsent
  | away
  /-- The source has answered, and the loop has not taken the answer in yet. -/
  | back (outcome : Pulled M)

/-- What has happened to a loop. -/
inductive RelayDeed (M : Type) where
  /-- A poll began. -/
  | polled
  /-- The loop reserved a slot. -/
  | reserved
  /-- The source began with a pull. -/
  | departed
  | returned (outcome : Pulled M)
  /-- The loop put a message into its slot. -/
  | sent (message : M)
  /-- The loop gave its slot back. -/
  | freed
  | received (message : M)
  | hungUp
  | cancelled

namespace RelayDeed

variable {M : Type}

/-- Whether a deed is one of the loop or the source. -/
def isOwn : RelayDeed M → Bool
  | .received _ | .hungUp | .cancelled => false
  | _ => true

def sent? : RelayDeed M → Option M
  | .sent m => some m
  | _ => none

def received? : RelayDeed M → Option M
  | .received m => some m
  | _ => none

/-- The message with which the source came back. -/
def brought? : RelayDeed M → Option M
  | .returned (.ok (some m)) => some m
  | _ => none

/-- What the loop does with the slot when it takes in an answer. -/
def ofOutcome : Pulled M → RelayDeed M
  | .ok (some m) => .sent m
  | _ => .freed

end RelayDeed

/-- The deed that has led a loop into a phase of its own accord. -/
def Phase.deed? {M : Type} : Phase → Option (RelayDeed M)
  | .asking _ _ => some .polled
  | .pulling _ _ => some .reserved
  | _ => none

/-- Whether a loop in a phase waits for something other than the source. -/
def Phase.isWaiting : Phase → Bool
  | .pulling _ _ | .stopped => false
  | _ => true

/-- A poll loop at work. The log has its oldest entry first. -/
structure Relay (M : Type) where
  poller : Poller M
  errand : Errand M := .unsent
  log : List (RelayDeed M) := []

/-- What may come next apart from the source. -/
inductive LoopTurn where
  /-- The loop goes on of its own accord. -/
  | goOn (now : Millis)
  /-- The loop takes in what the source has answered. -/
  | takeIn (now : Millis)
  /-- The receiver takes a message out of the channel, if there is one. -/
  | receive
  | hangUp
  | cancel

/-- What may come next. -/
inductive RelayTurn (M : Type) where
  | loop (turn : LoopTurn)
  /-- The source begins with the pull for which the loop holds a slot. -/
  | depart
  /-- The source answers. -/
  | comeBack (outcome : Pulled M)

namespace Channel

variable {M : Type} (c : Channel M) (m : M)

@[simp] theorem push_capacity : (c.push m).capacity = c.capacity := by
  unfold push
  split <;> rfl

@[simp] theorem push_listening : (c.push m).listening = c.listening := by
  unfold push
  split <;> rfl

theorem push_buffer : (c.push m).buffer = if c.listening then c.buffer ++ [m] else c.buffer := by
  unfold push
  split <;> rfl

end Channel

namespace Poller

variable {M : Type} {p : Poller M}

theorem new_eq_ok_iff {settings : PollerSettings} {channel : Channel M} :
    new settings channel = .ok p ↔
      p = { settings := settings, channel := channel } ∧ 1 ≤ settings.intervalMs ∧ 1 ≤ settings.maxMessagesPerPoll := by
  unfold new
  cases h : settings.validate with
  | error e =>
    have refused : ¬ (1 ≤ settings.intervalMs ∧ 1 ≤ settings.maxMessagesPerPoll) := fun valid => by
      rw [PollerSettings.validate_eq_ok_iff.2 ⟨rfl, valid⟩] at h
      cases h
    exact ⟨fun h => (nomatch h), fun ⟨_, valid⟩ => absurd valid refused⟩
  | ok s =>
    obtain ⟨rfl, valid⟩ := PollerSettings.validate_eq_ok_iff.1 h
    constructor
    · intro h
      cases h
      exact ⟨rfl, valid⟩
    · rintro ⟨rfl, -⟩
      rfl

@[simp] theorem cancel_channel : p.cancel.channel = p.channel := rfl

@[simp] theorem cancel_settings : p.cancel.settings = p.settings := rfl

@[simp] theorem cancel_report : p.cancel.report = p.report := rfl

@[simp] theorem cancel_phase : p.cancel.phase = p.phase := rfl

@[simp] theorem stop_channel (exit : PollExit) : (p.stop exit).channel = p.channel := rfl

@[simp] theorem stop_settings (exit : PollExit) : (p.stop exit).settings = p.settings := rfl

@[simp] theorem stop_cancelled (exit : PollExit) : (p.stop exit).cancelled = p.cancelled := rfl

@[simp] theorem stop_phase (exit : PollExit) : (p.stop exit).phase = .stopped := rfl

@[simp] theorem beginPoll_channel (now : Millis) : (p.beginPoll now).channel = p.channel := rfl

@[simp] theorem beginPoll_settings (now : Millis) : (p.beginPoll now).settings = p.settings := rfl

@[simp] theorem beginPoll_cancelled (now : Millis) : (p.beginPoll now).cancelled = p.cancelled := rfl

@[simp] theorem beginPoll_phase (now : Millis) :
    (p.beginPoll now).phase = .asking p.settings.maxMessagesPerPoll 0 := rfl

@[simp] theorem endPoll_channel (pulled : Nat) : (p.endPoll pulled).channel = p.channel := by
  unfold endPoll
  dsimp only
  split <;> rfl

@[simp] theorem endPoll_settings (pulled : Nat) : (p.endPoll pulled).settings = p.settings := by
  unfold endPoll
  dsimp only
  split <;> rfl

@[simp] theorem endPoll_cancelled (pulled : Nat) : (p.endPoll pulled).cancelled = p.cancelled := by
  unfold endPoll
  dsimp only
  split <;> rfl

theorem reserved_pulling {left pulled : Nat} (phase : p.phase = .pulling left pulled) : p.reserved = 1 := by
  simp [reserved, phase]

theorem endPoll_phase (pulled : Nat) :
    (p.endPoll pulled).phase = if p.channel.listening then .idle else .stopped := by
  unfold endPoll
  dsimp only [note]
  split <;> rfl

theorem endPoll_report (p : Poller M) (pulled : Nat) : ∃ exit, (p.endPoll pulled).report = { p.report with exit := exit } := by
  unfold endPoll
  dsimp only [note]
  split
  · exact ⟨_, rfl⟩
  · exact ⟨.outputClosed, rfl⟩

@[simp] theorem endPoll_reserved (pulled : Nat) : (p.endPoll pulled).reserved = 0 := by
  unfold reserved
  rw [endPoll_phase]
  cases p.channel.listening <;> rfl

end Poller

namespace Relay

variable {M : Type}

/-- A turn without the source; one that is not possible changes nothing. -/
def loopTurn (r : Relay M) : LoopTurn → Relay M
  | .goOn now =>
    match r.poller.step? now with
    | none => r
    | some p => { r with poller := p, log := r.log ++ p.phase.deed?.toList }
  | .takeIn now =>
    match r.errand with
    | .back outcome =>
      { poller := r.poller.answer now outcome, errand := .unsent, log := r.log ++ [.ofOutcome outcome] }
    | _ => r
  | .receive =>
    match r.poller.channel.receive with
    | (none, _) => r
    | (some m, channel) => { r with poller := { r.poller with channel := channel }, log := r.log ++ [.received m] }
  | .hangUp => { r with poller := { r.poller with channel := r.poller.channel.hangUp }, log := r.log ++ [.hungUp] }
  | .cancel => { r with poller := r.poller.cancel, log := r.log ++ [.cancelled] }

/-- A turn; one that is not possible changes nothing. -/
def turn (r : Relay M) : RelayTurn M → Relay M
  | .loop t => r.loopTurn t
  | .depart =>
    match r.errand, r.poller.phase with
    | .unsent, .pulling _ _ => { r with errand := .away, log := r.log ++ [.departed] }
    | _, _ => r
  | .comeBack outcome =>
    match r.errand with
    | .away => { r with errand := .back outcome, log := r.log ++ [.returned outcome] }
    | _ => r

/-- Makes turns one after the other. -/
def play (r : Relay M) (turns : List (RelayTurn M)) : Relay M := turns.foldl turn r

theorem play_append (r : Relay M) (turns turns' : List (RelayTurn M)) :
    r.play (turns ++ turns') = (r.play turns).play turns' := by
  simp [play]

theorem play_concat (r : Relay M) (turns : List (RelayTurn M)) (t : RelayTurn M) :
    r.play (turns ++ [t]) = (r.play turns).turn t := by
  simp [play]

/-! ## what a turn can change -/

/-- A pull is under way only while the loop holds a slot for it. -/
def Apt (r : Relay M) : Prop := r.errand ≠ .unsent → ∃ left pulled, r.poller.phase = .pulling left pulled

/-- The turns that change something. -/
inductive Step : Relay M → Relay M → Prop where
  | polled {p log} (now : Millis) (phase : p.phase = .idle) (active : p.cancelled = false) (due : p.due ≤ now) :
    Step ⟨p, .unsent, log⟩ ⟨p.beginPoll now, .unsent, log ++ [.polled]⟩
  | reserved {p log left pulled} (phase : p.phase = .asking (left + 1) pulled) (active : p.cancelled = false)
    (listening : p.channel.listening = true) (room : p.channel.hasRoom = true) :
    Step ⟨p, .unsent, log⟩ ⟨{ p with phase := .pulling left pulled }, .unsent, log ++ [.reserved]⟩
  | ended {p log pulled}
    (phase : p.phase = .asking 0 pulled ∨ ∃ resume, p.phase = .backingOff resume pulled ∧ p.cancelled = false) :
    Step ⟨p, .unsent, log⟩ ⟨p.endPoll pulled, .unsent, log⟩
  | stopped {p log} (exit : PollExit) (phase : p.phase.isWaiting)
    (reason : exit = .cancelled ∧ p.cancelled = true ∨ exit = .outputClosed ∧ p.channel.listening = false) :
    Step ⟨p, .unsent, log⟩ ⟨p.stop exit, .unsent, log⟩
  | departed {p log left pulled} (phase : p.phase = .pulling left pulled) :
    Step ⟨p, .unsent, log⟩ ⟨p, .away, log ++ [.departed]⟩
  | returned {p log} (outcome : Pulled M) : Step ⟨p, .away, log⟩ ⟨p, .back outcome, log ++ [.returned outcome]⟩
  | handedOn {p log m left pulled} (phase : p.phase = .pulling left pulled) :
    Step ⟨p, .back (.ok (some m)), log⟩
      ⟨{ p with
        phase := .asking left (pulled + 1)
        channel := p.channel.push m
        report := { p.report with released := p.report.released + 1 } }, .unsent, log ++ [.sent m]⟩
  | cameEmpty {p log left pulled} (phase : p.phase = .pulling left pulled) :
    Step ⟨p, .back (.ok none), log⟩ ⟨p.endPoll pulled, .unsent, log ++ [.freed]⟩
  | failed {p log left pulled} (failure : Failure String) (resume : Millis) (e : PollEvent)
    (phase : p.phase = .pulling left pulled) :
    Step ⟨p, .back (.error failure), log⟩
      ⟨{ p with
        phase := .backingOff resume pulled
        report := { p.report with errors := p.report.errors + 1 }
        journal := e :: p.journal }, .unsent, log ++ [.freed]⟩
  | received {p errand log m rest} (first : p.channel.buffer = m :: rest) :
    Step ⟨p, errand, log⟩ ⟨{ p with channel := { p.channel with buffer := rest } }, errand, log ++ [.received m]⟩
  | hungUp {p errand log} : Step ⟨p, errand, log⟩ ⟨{ p with channel := p.channel.hangUp }, errand, log ++ [.hungUp]⟩
  | cancelled {p errand log} : Step ⟨p, errand, log⟩ ⟨p.cancel, errand, log ++ [.cancelled]⟩

theorem deed?_endPoll (pulled : Nat) (p : Poller M) : (p.endPoll pulled).phase.deed? (M := M) = none := by
  rw [Poller.endPoll_phase]
  split <;> rfl

/-- What a loop does of its own accord is one of the rules. -/
theorem step_of_step? {p p' : Poller M} {now : Millis} {log : List (RelayDeed M)} (h : p.step? now = some p') :
    Step ⟨p, .unsent, log⟩ ⟨p', .unsent, log ++ p'.phase.deed?.toList⟩ := by
  have stopped {exit : PollExit} (waiting : p.phase.isWaiting)
      (reason : exit = .cancelled ∧ p.cancelled = true ∨ exit = .outputClosed ∧ p.channel.listening = false)
      (hp : p.stop exit = p') : Step ⟨p, .unsent, log⟩ ⟨p', .unsent, log ++ p'.phase.deed?.toList⟩ := by
    have step : Step ⟨p, .unsent, log⟩ ⟨p.stop exit, .unsent, log⟩ := .stopped exit waiting reason
    simpa [← hp, Phase.deed?] using step
  have ended {pulled : Nat}
      (phase : p.phase = .asking 0 pulled ∨ ∃ resume, p.phase = .backingOff resume pulled ∧ p.cancelled = false)
      (hp : p.endPoll pulled = p') : Step ⟨p, .unsent, log⟩ ⟨p', .unsent, log ++ p'.phase.deed?.toList⟩ := by
    have step : Step ⟨p, .unsent, log⟩ ⟨p.endPoll pulled, .unsent, log⟩ := .ended phase
    simpa [← hp, deed?_endPoll] using step
  unfold Poller.step? at h
  split at h
  case h_1 phase =>
    split at h
    · exact stopped (by simp [phase, Phase.isWaiting]) (.inl ⟨rfl, ‹_›⟩) (Option.some.inj h)
    · split at h
      · next active due => exact Option.some.inj h ▸ .polled now phase (by simpa using active) due
      · cases h
  case h_2 pulled phase => exact ended (.inl phase) (Option.some.inj h)
  case h_3 left pulled phase =>
    have waiting : p.phase.isWaiting := by simp [phase, Phase.isWaiting]
    split at h
    · exact stopped waiting (.inl ⟨rfl, ‹_›⟩) (Option.some.inj h)
    · next active =>
      split at h
      · next deaf => exact stopped waiting (.inr ⟨rfl, by simpa using deaf⟩) (Option.some.inj h)
      · next listening =>
        split at h
        · next room =>
          exact Option.some.inj h ▸ .reserved phase (by simpa using active) (by simpa using listening) room
        · cases h
  case h_4 resume pulled phase =>
    split at h
    · exact stopped (by simp [phase, Phase.isWaiting]) (.inl ⟨rfl, ‹_›⟩) (Option.some.inj h)
    · next active =>
      split at h
      · exact ended (.inr ⟨resume, phase, by simpa using active⟩) (Option.some.inj h)
      · cases h
  all_goals cases h

/-- A turn changes nothing or is one of the rules. -/
theorem step_of_turn {r : Relay M} (apt : r.Apt) (t : RelayTurn M) : r.turn t = r ∨ Step r (r.turn t) := by
  obtain ⟨p, errand, log⟩ := r
  rcases t with t | _ | outcome
  case loop =>
    simp only [turn]
    cases t with
    | goOn now =>
      simp only [loopTurn]
      split
      · exact .inl rfl
      · next p' hp =>
        -- a loop that holds a slot waits for the source
        have home : errand = .unsent := by
          by_contra away
          obtain ⟨left, pulled, phase⟩ := apt away
          simp [Poller.step?, show p.phase = _ from phase] at hp
        exact .inr (home ▸ step_of_step? hp)
    | takeIn now =>
      cases errand with
      | unsent | away => exact .inl rfl
      | back outcome =>
        obtain ⟨left, pulled, phase⟩ := apt (by simp)
        right
        simp only [loopTurn, Poller.answer, show p.phase = _ from phase]
        rcases outcome with failure | _ | m
        · exact .failed failure _ _ phase
        · exact .cameEmpty phase
        · exact .handedOn phase
    | receive =>
      cases first : p.channel.buffer with
      | nil => simp [loopTurn, Channel.receive, first]
      | cons m rest =>
        right
        simp only [loopTurn, Channel.receive, first]
        exact .received first
    | hangUp => exact .inr .hungUp
    | cancel => exact .inr .cancelled
  case depart =>
    simp only [turn]
    split
    · next phase => exact .inr (.departed phase)
    · exact .inl rfl
  case comeBack =>
    cases errand with
    | away => exact .inr (.returned outcome)
    | unsent | back o => exact .inl rfl

theorem Step.apt {r r' : Relay M} (step : Step r r') (apt : r.Apt) : r'.Apt := by
  cases step with
  | departed phase => exact fun _ => ⟨_, _, phase⟩
  | returned outcome => exact fun _ => apt (by simp)
  | received | hungUp | cancelled => exact apt
  | polled | reserved | ended | stopped | handedOn | cameEmpty | failed => exact fun away => absurd rfl away

/-- A loop that has ended has no pull under way. -/
theorem Apt.home {r : Relay M} (apt : r.Apt) (stopped : r.poller.hasStopped = true) : r.errand = .unsent := by
  by_contra away
  obtain ⟨left, pulled, phase⟩ := apt away
  simp [Poller.hasStopped, phase] at stopped

theorem Apt.reserved {r : Relay M} (apt : r.Apt) (away : r.errand ≠ .unsent) : r.poller.reserved = 1 := by
  obtain ⟨left, pulled, phase⟩ := apt away
  exact Poller.reserved_pulling phase

/-- What holds of a loop at its start and is kept by every step holds whatever the turns. -/
theorem play_induction {P : Relay M → Prop} {p : Poller M} (start : P { poller := p })
    (step : ∀ r r', Step r r' → P r → P r') (turns : List (RelayTurn M)) :
    P (({ poller := p } : Relay M).play turns) := by
  suffices h : P (({ poller := p } : Relay M).play turns) ∧ (({ poller := p } : Relay M).play turns).Apt from h.1
  induction turns using List.reverseRecOn with
  | nil => exact ⟨start, fun away => absurd rfl away⟩
  | append_singleton turns t ih =>
    rw [play_concat]
    rcases step_of_turn ih.2 t with same | moved
    · rwa [same]
    · exact ⟨step _ _ moved ih.1, moved.apt ih.2⟩

end Relay

end CorrelationBarrier
