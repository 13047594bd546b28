import CorrelationBarrier.Proofs.Poller.Relay
import Mathlib.Algebra.Order.BigOperators.Group.List
import Mathlib.Algebra.Order.Ring.Nat

/-!
# The report of a poll loop

The polls of a loop with their pulls, as its log tells them, and what the report of the loop says about them.

* `RelayDeed.polls` — the outcomes of the pulls, poll by poll;
* `Orderly`, `Complete` — what every poll is like, and what those are like that came to their end;
* `Relay.Paced` — how far the latest poll has come, kept by every step;
* `Relay.Tallied` — the counts of the report, kept by every step;
* `Relay.report_accounts` — the report between pulls and at the end.
-/

namespace CorrelationBarrier

variable {M : Type}

namespace Pulled

/-- Whether a pull brought a message. -/
def isMessage : Pulled M → Bool
  | .ok (some _) => true
  | _ => false

/-- Whether a pull failed or panicked. -/
def isFailure : Pulled M → Bool
  | .error _ => true
  | _ => false

end Pulled

namespace RelayDeed

def isPolled : RelayDeed M → Bool
  | .polled => true
  | _ => false

def isDeparted : RelayDeed M → Bool
  | .departed => true
  | _ => false

/-- What the source came back with. -/
def returned? : RelayDeed M → Option (Pulled M)
  | .returned outcome => some outcome
  | _ => none

/-- The polls after a deed. An outcome belongs to the latest poll. -/
def tell (polls : List (List (Pulled M))) : RelayDeed M → List (List (Pulled M))
  | .polled => [] :: polls
  | .returned outcome => polls.modifyHead (· ++ [outcome])
  | _ => polls

/-- The outcomes of the pulls, poll by poll, the latest poll first. -/
def polls (log : List (RelayDeed M)) : List (List (Pulled M)) := log.foldl tell []

theorem polls_concat (log : List (RelayDeed M)) (d : RelayDeed M) : polls (log ++ [d]) = tell (polls log) d := by
  simp [polls]

theorem length_polls (log : List (RelayDeed M)) : (polls log).length = log.countP isPolled := by
  induction log using List.reverseRecOn with
  | nil => rfl
  | append_singleton log d ih =>
    rw [polls_concat, List.countP_append, ← ih]
    cases d <;> simp [tell, isPolled]

end RelayDeed

/-! ## polls -/

variable {max : Nat} {poll : List (Pulled M)} {outcome : Pulled M}

/-- A poll has no more pulls than allowed, and every one but the last brought a message. -/
def Orderly (max : Nat) (poll : List (Pulled M)) : Prop :=
  poll.length ≤ max ∧ ∀ outcome ∈ poll.dropLast, outcome.isMessage = true

/-- A poll that came to its end has used up its pulls, or the last one brought no message. -/
def Complete (max : Nat) (poll : List (Pulled M)) : Prop :=
  Orderly max poll ∧ poll ≠ [] ∧ (poll.length = max ∨ ∃ outcome ∈ poll.getLast?, outcome.isMessage = false)

theorem orderly_of_messages (fits : poll.length ≤ max) (messages : ∀ outcome ∈ poll, outcome.isMessage = true) :
    Orderly max poll :=
  ⟨fits, fun outcome mem => messages outcome (List.dropLast_subset poll mem)⟩

theorem complete_of_messages (one : 1 ≤ max) (full : poll.length = max)
    (messages : ∀ outcome ∈ poll, outcome.isMessage = true) : Complete max poll := by
  refine ⟨orderly_of_messages (Nat.le_of_eq full) messages, ?_, .inl full⟩
  rintro rfl
  simp only [List.length_nil] at full
  omega

theorem complete_of_last (fits : poll.length < max) (messages : ∀ outcome ∈ poll, outcome.isMessage = true)
    (last : outcome.isMessage = false) : Complete max (poll ++ [outcome]) :=
  ⟨⟨by simpa using Nat.succ_le_of_lt fits, by simpa using messages⟩, by simp, .inr ⟨outcome, by simp, last⟩⟩

/-- Every pull of a poll but the last brought a message. -/
theorem Orderly.countP_isFailure (orderly : Orderly max poll) : poll.countP Pulled.isFailure ≤ 1 := by
  rcases List.eq_nil_or_concat poll with rfl | ⟨init, last, rfl⟩
  · simp
  · have messages : init.countP Pulled.isFailure = 0 := by
      refine List.countP_eq_zero.2 fun outcome mem => ?_
      have message := orderly.2 outcome (by simpa using mem)
      rcases outcome with _ | _ | _ <;> simp_all [Pulled.isFailure, Pulled.isMessage]
    rw [List.concat_eq_append, List.countP_append, messages]
    simpa using List.countP_le_length (l := [last]) (p := Pulled.isFailure)

/-! ## how far the latest poll has come -/

/-- The outcome that the loop has not taken in. -/
def Errand.outcome? : Errand M → Option (Pulled M)
  | .back outcome => some outcome
  | _ => none

/-- How many outcomes the source still owes. -/
def Errand.owed : Errand M → Nat
  | .away => 1
  | _ => 0

namespace Relay

variable {r r' : Relay M}

/-- The latest poll has brought `pulled` messages and then what is `late`; the earlier polls are complete. -/
def Underway (max left pulled : Nat) (late : List (Pulled M)) (polls : List (List (Pulled M))) : Prop :=
  ∃ poll earlier, polls = (poll ++ late) :: earlier ∧ (∀ outcome ∈ poll, outcome.isMessage = true) ∧
    poll.length = pulled ∧ pulled + left = max ∧ ∀ q ∈ earlier, Complete max q

/-- The earlier polls are complete. -/
def Paused (max : Nat) (polls : List (List (Pulled M))) : Prop :=
  (∀ q ∈ polls.head?, Orderly max q) ∧ ∀ q ∈ polls.tail, Complete max q

variable {left pulled : Nat} {polls : List (List (Pulled M))}

theorem paused_of_complete (complete : ∀ q ∈ polls, Complete max q) : Paused max polls :=
  ⟨fun q hq => (complete q (List.mem_of_mem_head? hq)).1, fun q hq => complete q (List.mem_of_mem_tail hq)⟩

theorem Underway.paused (underway : Underway max left pulled [] polls) : Paused max polls := by
  obtain ⟨poll, earlier, rfl, messages, length, whole, complete⟩ := underway
  refine ⟨fun q hq => ?_, complete⟩
  obtain rfl : poll = q := by simpa using hq
  exact orderly_of_messages (by omega) messages

/-- A poll that has used up its pulls is complete. -/
theorem Underway.complete_of_full (one : 1 ≤ max) (underway : Underway max 0 pulled [] polls) :
    ∀ q ∈ polls, Complete max q := by
  obtain ⟨poll, earlier, rfl, messages, length, whole, complete⟩ := underway
  refine List.forall_mem_cons.2 ⟨?_, complete⟩
  rw [List.append_nil]
  exact complete_of_messages one (by omega) messages

/-- A poll whose last pull brought no message is complete. -/
theorem Underway.complete_of_last (underway : Underway max (left + 1) pulled [outcome] polls)
    (last : outcome.isMessage = false) : ∀ q ∈ polls, Complete max q := by
  obtain ⟨poll, earlier, rfl, messages, length, whole, complete⟩ := underway
  exact List.forall_mem_cons.2 ⟨CorrelationBarrier.complete_of_last (by omega) messages last, complete⟩

/-- The loop takes a message in. -/
theorem Underway.goes_on (underway : Underway max (left + 1) pulled [outcome] polls) (brought : outcome.isMessage = true) :
    Underway max left (pulled + 1) [] polls := by
  obtain ⟨poll, earlier, rfl, messages, length, whole, complete⟩ := underway
  refine ⟨poll ++ [outcome], earlier, by simp, ?_, by simp [length], by omega, complete⟩
  simpa [or_imp, forall_and] using ⟨messages, brought⟩

theorem Underway.returned (underway : Underway max left pulled [] polls) (outcome : Pulled M) :
    Underway max left pulled [outcome] (RelayDeed.tell polls (.returned outcome)) := by
  obtain ⟨poll, earlier, rfl, rest⟩ := underway
  exact ⟨poll, earlier, by simp [RelayDeed.tell], rest⟩

/-- How far the latest poll has come. -/
def Paced (max : Nat) (r : Relay M) : Prop :=
  match r.poller.phase with
  | .asking left pulled => Underway max left pulled [] (RelayDeed.polls r.log)
  | .pulling left pulled => Underway max (left + 1) pulled r.errand.outcome?.toList (RelayDeed.polls r.log)
  | .idle | .backingOff _ _ => ∀ q ∈ RelayDeed.polls r.log, Complete max q
  | .stopped => Paused max (RelayDeed.polls r.log)

theorem Step.settings (step : Step r r') : r'.poller.settings = r.poller.settings := by
  cases step <;> simp

/-- A loop that ends a poll leaves polls that are complete. -/
theorem paced_endPoll {p : Poller M} {log : List (RelayDeed M)} (pulled : Nat) (errand : Errand M)
    (complete : ∀ q ∈ RelayDeed.polls log, Complete max q) : Paced max ⟨p.endPoll pulled, errand, log⟩ := by
  simp only [Paced, Poller.endPoll_phase]
  cases p.channel.listening with
  | true => exact complete
  | false => exact paused_of_complete complete

theorem Step.paced (one : 1 ≤ max) (step : Step r r') (settings : r.poller.settings.maxMessagesPerPoll = max)
    (apt : r.Apt) (paced : r.Paced max) : r'.Paced max := by
  cases step with
  | polled now phase =>
    simp only [Paced, phase, Poller.beginPoll_phase] at paced ⊢
    exact ⟨[], _, by simp [RelayDeed.polls_concat, RelayDeed.tell], by simp, rfl, by simpa using settings, paced⟩
  | reserved phase | departed phase =>
    simpa [Paced, phase, RelayDeed.polls_concat, RelayDeed.tell, Errand.outcome?] using paced
  | ended phase =>
    apply paced_endPoll
    rcases phase with phase | ⟨resume, phase, -⟩ <;> simp only [Paced, phase] at paced
    · exact paced.complete_of_full one
    · exact paced
  | @stopped p log exit waiting =>
    simp only [Paced, Poller.stop_phase] at paced ⊢
    cases phase : p.phase <;> simp only [phase] at paced
    case idle | backingOff => exact paused_of_complete paced
    case asking => exact paced.paused
    case pulling | stopped => simp [phase, Phase.isWaiting] at waiting
  | returned outcome =>
    obtain ⟨left, pulled, phase⟩ := apt (by simp)
    simp only at phase
    simp only [Paced, phase, RelayDeed.polls_concat] at paced ⊢
    exact Underway.returned paced outcome
  | handedOn phase =>
    simp only [Paced, phase, RelayDeed.polls_concat, RelayDeed.tell] at paced ⊢
    exact Underway.goes_on paced rfl
  | cameEmpty phase =>
    simp only [Paced, phase] at paced
    apply paced_endPoll
    simpa [RelayDeed.polls_concat, RelayDeed.tell] using Underway.complete_of_last paced rfl
  | failed failure resume e phase =>
    simp only [Paced, phase, RelayDeed.polls_concat, RelayDeed.tell] at paced ⊢
    exact Underway.complete_of_last paced rfl
  | received first => simpa [Paced, RelayDeed.polls_concat, RelayDeed.tell] using paced
  | hungUp => simpa [Paced, RelayDeed.polls_concat, RelayDeed.tell] using paced
  | cancelled => simpa [Paced, RelayDeed.polls_concat, RelayDeed.tell] using paced

/-! ## the counts -/

/-- What the report says about the pulls that the loop has taken in. -/
def Settled (r : Relay M) : Prop :=
  ∃ settled, r.log.filterMap RelayDeed.returned? = settled ++ r.errand.outcome?.toList ∧
    r.poller.report.released = .ofNat (settled.countP Pulled.isMessage) ∧
    r.poller.report.errors = .ofNat (settled.countP Pulled.isFailure)

theorem Step.ticks (step : Step r r') (ticks : r.poller.report.ticks = .ofNat (RelayDeed.polls r.log).length) :
    r'.poller.report.ticks = .ofNat (RelayDeed.polls r'.log).length := by
  cases step with
  | @ended p _ pulled | @cameEmpty p _ _ pulled =>
    obtain ⟨exit, report⟩ := p.endPoll_report pulled
    simpa [report, RelayDeed.polls_concat, RelayDeed.tell] using ticks
  | stopped => exact ticks
  | polled | reserved | departed | returned | handedOn | failed | received | hungUp | cancelled =>
    simp_all [RelayDeed.polls_concat, RelayDeed.tell, Poller.beginPoll]

theorem Step.settled (step : Step r r') (settled : r.Settled) : r'.Settled := by
  obtain ⟨settled, split, released, errors⟩ := settled
  cases step with
  | @ended p _ pulled =>
    obtain ⟨exit, report⟩ := p.endPoll_report pulled
    exact ⟨settled, split, by simpa [report] using released, by simpa [report] using errors⟩
  | stopped => exact ⟨settled, split, released, errors⟩
  | returned outcome =>
    refine ⟨settled, ?_, released, errors⟩
    simpa [List.filterMap_cons, RelayDeed.returned?, Errand.outcome?] using split
  | @cameEmpty p _ _ pulled =>
    obtain ⟨exit, report⟩ := p.endPoll_report pulled
    refine ⟨settled ++ [.ok none], ?_, ?_, ?_⟩
    · simpa [List.filterMap_cons, RelayDeed.returned?, Errand.outcome?] using split
    · simpa [report, Pulled.isMessage] using released
    · simpa [report, Pulled.isFailure] using errors
  | @handedOn p _ m =>
    refine ⟨settled ++ [.ok (some m)], ?_, ?_, ?_⟩
    · simpa [List.filterMap_cons, RelayDeed.returned?, Errand.outcome?] using split
    · simp_all [Pulled.isMessage]
    · simpa [Pulled.isFailure] using errors
  | failed failure resume e phase =>
    refine ⟨settled ++ [.error failure], ?_, ?_, ?_⟩
    · simpa [List.filterMap_cons, RelayDeed.returned?, Errand.outcome?] using split
    · simpa [Pulled.isMessage] using released
    · simp_all [Pulled.isFailure]
  | polled | reserved | departed | received | hungUp | cancelled =>
    refine ⟨settled, ?_, released, errors⟩
    simpa [List.filterMap_cons, RelayDeed.returned?, Errand.outcome?] using split

theorem Step.departures (step : Step r r')
    (departed : r.log.countP RelayDeed.isDeparted =
      (r.log.filterMap RelayDeed.returned?).length + r.errand.owed) :
    r'.log.countP RelayDeed.isDeparted = (r'.log.filterMap RelayDeed.returned?).length + r'.errand.owed := by
  cases step <;> simp_all [RelayDeed.isDeparted, RelayDeed.returned?, Errand.owed, List.filterMap_cons]

/-- Every pull is one of a poll. -/
theorem Step.flat (step : Step r r') (apt : r.Apt) (paced : r.Paced max)
    (flat : (RelayDeed.polls r.log).reverse.flatten = r.log.filterMap RelayDeed.returned?) :
    (RelayDeed.polls r'.log).reverse.flatten = r'.log.filterMap RelayDeed.returned? := by
  cases step with
  | returned outcome =>
    obtain ⟨left, pulled, phase⟩ := apt (by simp)
    simp only at phase
    simp only [Paced, phase] at paced
    obtain ⟨poll, earlier, polls, -⟩ := paced
    simp only [polls, List.reverse_cons, List.flatten_append] at flat
    simpa [RelayDeed.polls_concat, RelayDeed.tell, polls, List.filterMap_cons, RelayDeed.returned?, Errand.outcome?,
      ← List.append_assoc] using flat
  | polled | reserved | ended | stopped | departed | handedOn | cameEmpty | failed | received | hungUp | cancelled =>
    simpa [RelayDeed.polls_concat, RelayDeed.tell, List.filterMap_cons, RelayDeed.returned?] using flat

/-! ## the report -/

/-- What the state of a loop says about its polls. -/
structure Reports (max : Nat) (r : Relay M) : Prop where
  apt : r.Apt
  settings : r.poller.settings.maxMessagesPerPoll = max
  paced : r.Paced max
  ticks : r.poller.report.ticks = .ofNat (RelayDeed.polls r.log).length
  settled : r.Settled
  departures : r.log.countP RelayDeed.isDeparted = (r.log.filterMap RelayDeed.returned?).length + r.errand.owed
  flat : (RelayDeed.polls r.log).reverse.flatten = r.log.filterMap RelayDeed.returned?

theorem Step.reports (one : 1 ≤ max) (step : Step r r') (reports : r.Reports max) : r'.Reports max where
  apt := step.apt reports.apt
  settings := step.settings ▸ reports.settings
  paced := step.paced one reports.settings reports.apt reports.paced
  ticks := step.ticks reports.ticks
  settled := step.settled reports.settled
  departures := step.departures reports.departures
  flat := step.flat reports.apt reports.paced reports.flat

theorem Paced.paused (paced : r.Paced max) (home : r.errand = .unsent) : Paused max (RelayDeed.polls r.log) := by
  unfold Paced at paced
  cases phase : r.poller.phase <;> simp only [phase] at paced
  case idle | backingOff => exact paused_of_complete paced
  case asking => exact paced.paused
  case pulling =>
    rw [home] at paced
    exact Underway.paused paced
  case stopped => exact paced

theorem Paused.orderly (paused : Paused max polls) : ∀ q ∈ polls, Orderly max q := by
  cases polls with
  | nil => simp
  | cons q earlier =>
    exact List.forall_mem_cons.2 ⟨paused.1 q rfl, fun q' hq' => (paused.2 q' hq').1⟩

/-- The pulls are at most as many as the polls allow, and at least as many as the polls that came to their end. -/
theorem Paused.counts (paused : Paused max polls) :
    polls.reverse.flatten.countP Pulled.isFailure ≤ polls.length ∧ polls.length - 1 ≤ polls.reverse.flatten.length ∧
      polls.reverse.flatten.length ≤ polls.length * max := by
  have length : polls.reverse.flatten.length = (polls.map List.length).sum := by
    rw [List.length_flatten, List.map_reverse, List.sum_reverse]
  refine ⟨?_, ?_, ?_⟩
  · rw [List.countP_flatten, List.map_reverse, List.sum_reverse]
    have few := List.sum_le_card_nsmul (polls.map (List.countP Pulled.isFailure)) 1 fun n hn => by
      obtain ⟨q, hq, rfl⟩ := List.mem_map.1 hn
      exact (paused.orderly q hq).countP_isFailure
    simpa using few
  · rw [length]
    cases polls with
    | nil => simp
    | cons q earlier =>
      have some (n : Nat) (hn : n ∈ earlier.map List.length) : 1 ≤ n := by
        obtain ⟨q', hq', rfl⟩ := List.mem_map.1 hn
        exact List.length_pos_iff.2 (paused.2 q' hq').2.1
      have many : earlier.length ≤ (earlier.map List.length).sum := by
        simpa using List.card_nsmul_le_sum (earlier.map List.length) 1 some
      simp only [List.length_cons, List.map_cons, List.sum_cons]
      omega
  · rw [length]
    have few := List.sum_le_card_nsmul (polls.map List.length) max fun n hn => by
      obtain ⟨q, hq, rfl⟩ := List.mem_map.1 hn
      exact (paused.orderly q hq).1
    simpa using few

theorem reports_start {p : Poller M} (settings : p.settings.maxMessagesPerPoll = max) (phase : p.phase = .idle)
    (fresh : p.report = {}) : ({ poller := p } : Relay M).Reports max where
  apt := fun away => absurd rfl away
  settings := settings
  paced := by simp [Paced, phase, RelayDeed.polls]
  ticks := by simp [fresh, RelayDeed.polls]
  settled := ⟨[], by simp [Errand.outcome?], by simp [fresh], by simp [fresh]⟩
  departures := by simp [Errand.owed]
  flat := rfl

/-- **The report accounts for the polls.** A poll loop with settings that are valid, on any channel, and any series of turns
of the loop, its source, the receiver and whoever cancels it. Between pulls and at the end the report counts the polls that
were begun, the pulls that brought a message and those that failed or panicked, as words do. No poll has more pulls than
allowed, nor one after a pull that brought no message; every poll but the latest came to its end. -/
theorem report_accounts {settings : PollerSettings} {channel : Channel M} {p : Poller M}
    (accepted : Poller.new settings channel = .ok p) (turns : List (RelayTurn M)) :
    let r := ({ poller := p } : Relay M).play turns
    let report := r.poller.report
    let max := settings.maxMessagesPerPoll
    let polls := RelayDeed.polls r.log
    let pulls := r.log.filterMap RelayDeed.returned?
    (r.poller.hasStopped = true → r.errand = .unsent) ∧
    (r.errand = .unsent →
      report.ticks = .ofNat polls.length ∧ report.released = .ofNat (pulls.countP Pulled.isMessage) ∧
      report.errors = .ofNat (pulls.countP Pulled.isFailure) ∧
      polls.length = r.log.countP RelayDeed.isPolled ∧ pulls.length = r.log.countP RelayDeed.isDeparted ∧
      polls.reverse.flatten = pulls ∧
      (∀ poll ∈ polls, Orderly max poll) ∧ (∀ poll ∈ polls.tail, Complete max poll) ∧
      pulls.countP Pulled.isFailure ≤ polls.length ∧ pulls.countP Pulled.isMessage ≤ polls.length * max ∧
      polls.length - 1 ≤ pulls.length ∧ pulls.length ≤ polls.length * max ∧
      (polls.length * max < 2 ^ 64 →
        report.errors.toNat ≤ report.ticks.toNat ∧ report.released.toNat ≤ report.ticks.toNat * max ∧
        report.ticks.toNat - 1 ≤ pulls.length ∧ pulls.length ≤ report.ticks.toNat * max)) := by
  intro r report max polls pulls
  obtain ⟨rfl, -, one⟩ := Poller.new_eq_ok_iff.1 accepted
  have reports : r.Reports max :=
    play_induction (P := Reports max) (reports_start rfl rfl rfl)
      (fun _ _ step reports => step.reports one reports) turns
  refine ⟨reports.apt.home, fun home => ?_⟩
  have paused : Paused max polls := reports.paced.paused home
  obtain ⟨settled, split, released, errors⟩ := reports.settled
  obtain rfl : pulls = settled := by simpa [home, Errand.outcome?] using split
  obtain ⟨failures, least, most⟩ := paused.counts
  rw [reports.flat] at failures least most
  have messages : pulls.countP Pulled.isMessage ≤ polls.length * max := Nat.le_trans List.countP_le_length most
  refine ⟨reports.ticks, released, errors, RelayDeed.length_polls r.log, ?_, reports.flat, paused.orderly, paused.2,
    failures, messages, least, most, fun bounded => ?_⟩
  · simpa [home, Errand.owed] using reports.departures.symm
  · have few : polls.length ≤ polls.length * max := Nat.le_mul_of_pos_right _ one
    have word {w : UInt64} {n : Nat} (h : w = .ofNat n) (fits : n ≤ polls.length * max) : w.toNat = n := by
      rw [h, UInt64.toNat_ofNat']
      exact Nat.mod_eq_of_lt (Nat.lt_of_le_of_lt fits bounded)
    rw [word reports.ticks few, word released messages, word errors (Nat.le_trans failures few)]
    exact ⟨failures, messages, least, most⟩

/-- Three polls with room for two pulls. The first brings two messages and the second nothing; the loop is cancelled while
it backs off after a failure in the third. -/
theorem report_of_three_polls :
    let p : Poller Nat := { settings := { maxMessagesPerPoll := 2 }, channel := { capacity := 4 } }
    let goOn : RelayTurn Nat := .loop (.goOn 500)
    let pull (outcome : Pulled Nat) : List (RelayTurn Nat) :=
      [goOn, .depart, .comeBack outcome, .loop (.takeIn 500)]
    let turns : List (RelayTurn Nat) := [[goOn], pull (.ok (some 7)), pull (.ok (some 8)), [goOn, .loop (.goOn 600)],
      pull (.ok none), [.loop (.goOn 700)], pull (.error (.panic "out of order")), [.loop .cancel, goOn]].flatten
    Poller.new { maxMessagesPerPoll := 2 } { capacity := 4 } = .ok p ∧
      (({ poller := p } : Relay Nat).play turns).poller.hasStopped = true ∧
      (({ poller := p } : Relay Nat).play turns).poller.report = ⟨3, 2, 1, .cancelled⟩ ∧
      (RelayDeed.polls (({ poller := p } : Relay Nat).play turns).log).length = 3 ∧
      ∀ poll ∈ (RelayDeed.polls (({ poller := p } : Relay Nat).play turns).log).tail, Complete 2 poll := by
  intro p goOn pull turns
  have accepted : Poller.new { maxMessagesPerPoll := 2 } { capacity := 4 } = .ok p :=
    Poller.new_eq_ok_iff.2 ⟨rfl, by decide, by decide⟩
  have stopped : (({ poller := p } : Relay Nat).play turns).poller.hasStopped = true := by decide +kernel
  obtain ⟨home, accounts⟩ := report_accounts accepted turns
  obtain ⟨-, -, -, -, -, -, -, complete, -⟩ := accounts (home stopped)
  exact ⟨accepted, stopped, by decide +kernel, by decide +kernel, complete⟩

end Relay

end CorrelationBarrier
