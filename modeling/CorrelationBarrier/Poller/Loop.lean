import CorrelationBarrier.Outcome
import CorrelationBarrier.Poller.Channel
import CorrelationBarrier.Settings
import CorrelationBarrier.Trace

/-!
# The poll loop

A `Poller M` pulls messages from a source on a cadence and hands them on through a bounded channel. It reserves a slot
before each pull, so that no message leaves the source that cannot be handed on. `Poller.step?` is a step that needs no
answer from the source, and `Poller.answer` takes in the answer to a pull; between the two the loop waits.

* `nextDue` — the cadence: a tick that comes in time keeps it, a late one starts it afresh;
* `Poller.wakeAt?` — when a loop that waits goes on if nothing happens to it.

Cancelling wins over whatever else a waiting loop could do. All times are in milliseconds.
-/

namespace CorrelationBarrier

/-- A time in whole milliseconds. -/
abbrev Millis := Nat

/-- Why a poll loop ended. -/
inductive PollExit where
  /-- It was cancelled. -/
  | cancelled
  /-- Nobody receives any more. -/
  | outputClosed
  deriving DecidableEq

/-- The name of an exit in printed values. -/
def PollExit.name : PollExit → String
  | .cancelled => "Cancelled"
  | .outputClosed => "OutputClosed"

/-- What a poll loop has done. The counts are words and start again after `2 ^ 64 - 1`. -/
structure PollReport where
  /-- Polls begun. -/
  ticks : UInt64 := 0
  /-- Messages handed on. -/
  released : UInt64 := 0
  /-- Pulls that failed or panicked. -/
  errors : UInt64 := 0
  exit : PollExit := .cancelled
  deriving DecidableEq

/-- What a poll loop reports. -/
inductive PollEvent where
  | spawned (interval : Millis)
  | failed (reason : String) (backoff : Millis)
  | polled (tick : UInt64) (pulled : Nat)
  | stopped (report : PollReport)
  deriving DecidableEq

/-- The line of an event of a poll loop. -/
def TraceLine.ofPollEvent : PollEvent → TraceLine
  | .spawned interval => of .trace "poller.spawn" [("interval_ms", toString interval)]
  | .failed reason backoff => of .warn "poller.error" [("error", reason), ("backoff_ms", toString backoff)]
  | .polled tick pulled => of .trace "poller.tick" [("tick", toString tick), ("pulled", toString pulled)]
  | .stopped report =>
    of .debug "poller.stopped"
      [("ticks", toString report.ticks), ("released", toString report.released), ("errors", toString report.errors),
       ("exit", report.exit.name)]

/-- What a source answers to a pull: a message, nothing, or a failure in words. -/
abbrev Pulled (M : Type) := Outcome String (Option M)

/-- Where a poll loop is. In a poll, `left` more pulls are allowed and `pulled` have brought a message. -/
inductive Phase where
  /-- Between polls, waiting for a tick. -/
  | idle
  /-- In a poll, waiting for a free slot. -/
  | asking (left pulled : Nat)
  /-- In a poll, holding a slot, while the source works on the answer. -/
  | pulling (left pulled : Nat)
  /-- In a poll whose last pull failed, waiting for a point in time. -/
  | backingOff (resume : Millis) (pulled : Nat)
  | stopped
  deriving DecidableEq

/-- A poll loop with the channel that it feeds. -/
structure Poller (M : Type) where
  settings : PollerSettings
  channel : Channel M
  phase : Phase := .idle
  /-- When the next tick is due. -/
  due : Millis := 0
  /-- Whether the loop was told to end. -/
  cancelled : Bool := false
  report : PollReport := {}
  /-- The events so far, newest first. -/
  journal : List PollEvent := []

/-- How far behind its due time a tick still comes in time. -/
def tickSlack : Millis := 5

/-- When the next tick is due after one that was due at `due` and came at `now`. -/
def nextDue (interval due now : Millis) : Millis :=
  if now ≤ due + tickSlack then due + interval else now + interval

namespace Poller

variable {M : Type}

/-- A poll loop that has not begun, unless it cannot run with its settings. -/
def new (settings : PollerSettings) (channel : Channel M) : Except SettingsError (Poller M) := do
  return { settings := ← settings.validate, channel := channel }

/-- The slots of the channel that the loop has reserved. -/
def reserved (p : Poller M) : Nat :=
  match p.phase with
  | .pulling _ _ => 1
  | _ => 0

/-- Whether the loop waits for the source to answer. -/
def isPulling (p : Poller M) : Bool := p.reserved = 1

/-- Whether the loop has ended. -/
def hasStopped (p : Poller M) : Bool := p.phase = .stopped

/-- Tells the loop to end. -/
def cancel (p : Poller M) : Poller M := { p with cancelled := true }

/-- Notes an event. -/
def note (e : PollEvent) (p : Poller M) : Poller M := { p with journal := e :: p.journal }

/-- Ends the loop. -/
def stop (exit : PollExit) (p : Poller M) : Poller M :=
  let report := { p.report with exit := exit }
  { p with phase := .stopped, report := report, journal := .stopped report :: p.journal }

/-- Begins a poll. -/
def beginPoll (now : Millis) (p : Poller M) : Poller M :=
  { p with
    phase := .asking p.settings.maxMessagesPerPoll 0
    due := nextDue p.settings.intervalMs p.due now
    report := { p.report with ticks := p.report.ticks + 1 } }

/-- Ends a poll, and the loop if nobody receives any more. -/
def endPoll (pulled : Nat) (p : Poller M) : Poller M :=
  let p := p.note (.polled p.report.ticks pulled)
  if p.channel.listening then { p with phase := .idle } else p.stop .outputClosed

/-- A step that needs no answer from the source, if the loop can make one at the time `now`. -/
def step? (now : Millis) (p : Poller M) : Option (Poller M) :=
  match p.phase with
  | .idle =>
    if p.cancelled then some (p.stop .cancelled)
    else if p.due ≤ now then some (p.beginPoll now)
    else none
  | .asking 0 pulled => some (p.endPoll pulled)
  | .asking (left + 1) pulled =>
    if p.cancelled then some (p.stop .cancelled)
    else if !p.channel.listening then some (p.stop .outputClosed)
    else if p.channel.hasRoom then some { p with phase := .pulling left pulled }
    else none
  | .backingOff resume pulled =>
    if p.cancelled then some (p.stop .cancelled)
    else if resume ≤ now then some (p.endPoll pulled)
    else none
  | .pulling _ _ | .stopped => none

/-- Takes in what the source answered. A message goes into the reserved slot; anything else gives the slot back. -/
def answer (now : Millis) (outcome : Pulled M) (p : Poller M) : Poller M :=
  match p.phase, outcome with
  | .pulling left pulled, .ok (some m) =>
    { p with
      phase := .asking left (pulled + 1)
      channel := p.channel.push m
      report := { p.report with released := p.report.released + 1 } }
  | .pulling _ pulled, .ok none => p.endPoll pulled
  | .pulling _ pulled, .error failure =>
    let reason := match failure with
      | .error text => text
      | .panic _ => "pull panicked"
    { p with
      phase := .backingOff (now + p.settings.errorBackoffMs) pulled
      report := { p.report with errors := p.report.errors + 1 }
      journal := .failed reason p.settings.errorBackoffMs :: p.journal }
  | _, _ => p

/-- When a waiting loop goes on of its own accord. -/
def wakeAt? (p : Poller M) : Option Millis :=
  match p.phase with
  | .idle => some p.due
  | .backingOff resume _ => some resume
  | _ => none

end Poller

end CorrelationBarrier
