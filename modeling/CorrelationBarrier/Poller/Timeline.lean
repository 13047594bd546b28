import CorrelationBarrier.Poller.Source

/-!
# A poll loop in time

A `Timeline` is a poll loop with its source, on a clock that moves on only when everything waits. `Timeline.step?` does,
in this order of precedence, what the loop can do now, what an eager receiver can take, and whatever comes next: an event
of the outside world, or the time for which the loop waits.

A `Plan` says what the outside world does and when, and `Plan.play` lets everything come to its end.
-/

namespace CorrelationBarrier

/-- What the outside world does to a poll loop. -/
inductive OutsideEvent (ω : Type) where
  /-- Takes one message from the channel, if there is one. -/
  | receive
  | hangUp
  | cancel
  /-- Acts on the source. -/
  | act (action : ω)

/-- A poll loop in time. The lists of what has happened have the newest entry first. -/
structure Timeline (σ ω M : Type) where
  now : Millis := 0
  poller : Poller M
  source : σ
  /-- The events that are still to come, in the order of their times. -/
  coming : List (Millis × OutsideEvent ω)
  /-- Whether the receiver takes every message at once. -/
  eager : Bool
  /-- Whether the outside world acts on the source even after the loop has ended. -/
  outlives : Bool
  received : List (Millis × M) := []
  pulls : List (Millis × Pulled M) := []
  endedAt : Option Millis := none
  log : List TraceLine := []

namespace Timeline

variable {σ ω M : Type}

/-- Goes on with another state of the loop: notes its events in the log, and the time if it has ended. -/
def goOn (p : Poller M) (t : Timeline σ ω M) : Timeline σ ω M :=
  { t with
    poller := { p with journal := [] }
    log := p.journal.map TraceLine.ofPollEvent ++ t.log
    endedAt := t.endedAt <|> if p.hasStopped then some t.now else none }

/-- Receives one message, if there is one. -/
def receive (t : Timeline σ ω M) : Timeline σ ω M :=
  match t.poller.channel.receive with
  | (none, _) => t
  | (some m, channel) =>
    { t with poller := { t.poller with channel := channel }, received := (t.now, m) :: t.received }

/-- Lets an event of the outside world happen. -/
def happen (source : Source σ ω M) (t : Timeline σ ω M) : OutsideEvent ω → Timeline σ ω M
  | .receive => t.receive
  | .hangUp => { t with poller := { t.poller with channel := t.poller.channel.hangUp } }
  | .cancel => { t with poller := t.poller.cancel }
  | .act action =>
    if t.poller.hasStopped && !t.outlives then t
    else
      let (lines, s) := source.act action t.source
      { t with source := s, log := lines.reverse ++ t.log }

/-- The clock moves on to the next event or to the time for which the loop waits, whichever comes first. -/
def moveOn (source : Source σ ω M) (t : Timeline σ ω M) : Option (Timeline σ ω M) :=
  let event (time : Millis) (e : OutsideEvent ω) (rest : List (Millis × OutsideEvent ω)) : Timeline σ ω M :=
    { t with now := max t.now time, coming := rest }.happen source e
  match t.coming, t.poller.wakeAt? with
  | [], none => none
  | [], some wake => some { t with now := max t.now wake }
  | (time, e) :: rest, none => some (event time e rest)
  | (time, e) :: rest, some wake =>
    if time ≤ wake then some (event time e rest) else some { t with now := max t.now wake }

/-- One step, as long as something is to come. -/
def step? (source : Source σ ω M) (t : Timeline σ ω M) : Option (Timeline σ ω M) :=
  if t.poller.isPulling then
    let (outcome, s) := source.pull t.source
    let pulls := if source.lists outcome then (t.now, outcome) :: t.pulls else t.pulls
    some ({ t with source := s, pulls := pulls }.goOn (t.poller.answer t.now outcome))
  else
    match t.poller.step? t.now with
    | some p => some (t.goOn p)
    | none =>
      if t.eager && t.poller.channel.listening && !t.poller.channel.buffer.isEmpty then some t.receive
      else t.moveOn source

/-- At most `fuel` steps, until nothing is to come. -/
def run (source : Source σ ω M) : (fuel : Nat) → Timeline σ ω M → Timeline σ ω M
  | 0, t => t
  | fuel + 1, t =>
    match t.step? source with
    | none => t
    | some t => t.run source fuel

end Timeline

/-! ## plans -/

/-- What the receiver does. -/
inductive Consumer where
  /-- It takes every message at once, until it leaves, if it does. -/
  | eager (leaves : Option Millis)
  /-- It takes a message at each of these times, and then it leaves, if it does. -/
  | scheduled (times : List Millis) (leaves : Option Millis)
  /-- It left before the loop began. -/
  | absent

/-- How a poll loop is run. -/
inductive RunMode where
  /-- The caller waits for the loop to end. -/
  | attached
  /-- The loop runs by itself until the caller shuts it down. -/
  | spawned
  deriving DecidableEq

/-- What the outside world does to a poll loop, and when. -/
structure Plan (ω M : Type) where
  mode : RunMode
  /-- Whether the loop is cancelled before it begins. It matters only to a caller who waits for the loop. -/
  cancelFirst : Bool
  /-- When the loop is cancelled. -/
  stopAt : Millis
  consumer : Consumer
  /-- The actions on the source. Each takes place at its time, or right after the one before it if that is later. -/
  actions : List (Millis × ω)

/-- What came of a plan. -/
structure PlanResult (σ M : Type) where
  endedAt : Millis
  /-- Whether the loop ended before it was told to. -/
  endedEarly : Bool
  report : PollReport
  received : List (Millis × M)
  undelivered : List M
  pulls : List (Millis × Pulled M)
  source : σ
  log : List TraceLine

namespace Plan

variable {σ ω M α : Type}

/-- Puts off what is listed too early to the time of what is listed before it. -/
def inOrder (start : Millis) : List (Millis × α) → List (Millis × α)
  | [] => []
  | (time, a) :: rest => (max start time, a) :: inOrder (max start time) rest

/-- What the receiver does, with its times. -/
def consumerEvents : Consumer → List (Millis × OutsideEvent ω)
  | .eager leaves => (leaves.map fun t => (t, .hangUp)).toList
  | .scheduled times leaves =>
    inOrder 0 ((times.map fun t => (t, .receive)) ++ (leaves.map fun t => (t, .hangUp)).toList)
  | .absent => []

/-- All events of a plan, in the order of their times. Whoever shuts down a spawned loop does not act on its source any
more. -/
def events (p : Plan ω M) : List (Millis × OutsideEvent ω) :=
  let acts := (inOrder 0 p.actions).filter fun a => p.mode = .attached || a.1 < p.stopAt
  let all := (acts.map fun (t, a) => (t, .act a)) ++ consumerEvents p.consumer ++ [(p.stopAt, .cancel)]
  all.mergeSort fun a b => a.1 ≤ b.1

/-- The timeline of a plan at its start. -/
def start (p : Plan ω M) (poller : Poller M) (source : σ) : Timeline σ ω M where
  poller :=
    let poller := if p.mode = .attached && p.cancelFirst then poller.cancel else poller
    match p.consumer with
    | .absent => { poller with channel := poller.channel.hangUp }
    | _ => poller
  source := source
  coming := p.events
  eager := match p.consumer with
    | .eager _ => true
    | _ => false
  outlives := p.mode = .spawned
  log := match p.mode with
    | .attached => []
    | .spawned => [.ofPollEvent (.spawned poller.settings.intervalMs)]

/-- More steps than a plan can take until it comes to its end, if the source has at most `supply` messages or failures: a
poll takes at most eight steps and at most four for each message, and no two polls have ticks due at the same time. -/
def fuel (p : Plan ω M) (supply : Nat) : Nat := 8 * (p.stopAt + supply + p.events.length + 8)

/-- Plays a plan for a loop over a source that has at most `supply` messages. -/
def play (p : Plan ω M) (source : Source σ ω M) (supply : Nat) (poller : Poller M) (state : σ) : PlanResult σ M :=
  let t := (p.start poller state).run source (p.fuel supply)
  { endedAt := match p.mode with
      | .attached => t.endedAt.getD t.now
      | .spawned => p.stopAt
    endedEarly := t.endedAt.any (· < p.stopAt)
    report := t.poller.report
    received := t.received.reverse
    undelivered := t.poller.channel.buffer
    pulls := t.pulls.reverse
    source := t.source
    log := t.log.reverse }

end Plan

end CorrelationBarrier
