import CorrelationBarrier.Poller.Timeline
import CorrelationBarrier.Proofs.Poller.Clocked

/-!
# Plans as series of turns

A poll loop in time does nothing that a loop on a clock could not do: whatever a plan says, and whatever the source, what
comes of the plan is what comes of some series of turns, with the same times. On a timeline a pull takes no time, so the
source departs and comes back with no turn in between, and the events of the loop are moved to a log of the timeline.

* `Poller.quiet` — a loop apart from its events, on which nothing that it does depends;
* `History.receipts`, `History.returns`, `History.endedAt?` — what a timeline keeps of a history;
* `Timeline.Tracks` — a timeline and a loop on a clock agree; `Tracks.step` and `Tracks.run`;
* `Plan.exists_turns` — for plans.
-/

namespace CorrelationBarrier

variable {σ ω M : Type}

namespace Poller

/-- A loop apart from its events. -/
def quiet (p : Poller M) : Poller M := { p with journal := [] }

theorem quiet_endPoll (p : Poller M) (pulled : Nat) : (p.quiet.endPoll pulled).quiet = (p.endPoll pulled).quiet := by
  unfold endPoll
  dsimp only [note, quiet]
  split <;> rfl

theorem quiet_step? (p : Poller M) (now : Millis) : (p.quiet.step? now).map quiet = (p.step? now).map quiet := by
  have ended := p.quiet_endPoll
  obtain ⟨settings, channel, phase, due, cancelled, report, journal⟩ := p
  cases phase with
  | pulling | stopped => rfl
  | idle =>
    cases cancelled with
    | true => rfl
    | false => by_cases h : due ≤ now <;> simp [step?, quiet, beginPoll, h]
  | backingOff resume pulled =>
    cases cancelled with
    | true => rfl
    | false =>
      by_cases h : resume ≤ now
      · simpa [step?, quiet, h] using ended pulled
      · simp [step?, quiet, h]
  | asking left pulled =>
    cases left with
    | zero => exact congrArg some (ended pulled)
    | succ left =>
      cases cancelled with
      | true => rfl
      | false =>
        cases hl : channel.listening <;> cases hr : channel.hasRoom <;> simp [step?, quiet, stop, hl, hr]

theorem quiet_answer (p : Poller M) (now : Millis) (outcome : Pulled M) :
    (p.quiet.answer now outcome).quiet = (p.answer now outcome).quiet := by
  obtain ⟨settings, channel, phase, due, cancelled, report, journal⟩ := p
  cases phase with
  | pulling left pulled =>
    rcases outcome with failure | _ | m
    · rfl
    · exact quiet_endPoll ⟨settings, channel, _, due, cancelled, report, journal⟩ pulled
    · rfl
  | idle | asking | backingOff | stopped => rcases outcome with _ | _ | _ <;> rfl

variable {p q : Poller M}

theorem channel_of_quiet (same : p.quiet = q.quiet) : p.channel = q.channel :=
  have channels : p.quiet.channel = q.quiet.channel := congrArg channel same
  channels

theorem phase_of_quiet (same : p.quiet = q.quiet) : p.phase = q.phase :=
  have phases : p.quiet.phase = q.quiet.phase := congrArg phase same
  phases

theorem hasStopped_of_quiet (same : p.quiet = q.quiet) : p.hasStopped = q.hasStopped := by
  rw [hasStopped, phase_of_quiet same]
  rfl

theorem isPulling_of_quiet (same : p.quiet = q.quiet) : p.isPulling = q.isPulling := by
  unfold isPulling reserved
  rw [phase_of_quiet same]

theorem wakeAt?_of_quiet (same : p.quiet = q.quiet) : p.wakeAt? = q.wakeAt? := by
  have due : p.quiet.due = q.quiet.due := congrArg Poller.due same
  unfold wakeAt?
  rw [phase_of_quiet same, show p.due = q.due from due]

theorem quiet_withChannel (same : p.quiet = q.quiet) (c : Channel M) :
    { p with channel := c }.quiet = { q with channel := c }.quiet :=
  have channels : { p.quiet with channel := c } = { q.quiet with channel := c } := by rw [same]
  channels

theorem quiet_cancel (same : p.quiet = q.quiet) : p.cancel.quiet = q.cancel.quiet :=
  have cancelled : p.quiet.cancel = q.quiet.cancel := by rw [same]
  cancelled

/-- Loops that agree apart from their events make the same steps. -/
theorem step?_of_quiet (same : p.quiet = q.quiet) {now : Millis} {q' : Poller M} (h : q.step? now = some q') :
    ∃ p', p.step? now = some p' ∧ p'.quiet = q'.quiet := by
  have steps : (p.step? now).map quiet = some q'.quiet := by
    rw [← quiet_step?, same, quiet_step?, h]
    rfl
  exact Option.map_eq_some_iff.1 steps

theorem answer_of_quiet (same : p.quiet = q.quiet) (now : Millis) (outcome : Pulled M) :
    (p.answer now outcome).quiet = (q.answer now outcome).quiet := by
  rw [← quiet_answer, same, quiet_answer]

end Poller

namespace History

/-- The messages that were received, with their times. -/
def receipts (history : History M) : List (Millis × M) :=
  history.filterMap fun entry => match entry.2 with
    | .did (.received m) => some (entry.1, m)
    | _ => none

/-- What the source came back with, with the times. -/
def returns (history : History M) : List (Millis × Pulled M) :=
  history.filterMap fun entry => match entry.2 with
    | .did (.returned outcome) => some (entry.1, outcome)
    | _ => none

/-- When the loop ended. -/
def endedAt? (history : History M) : Option Millis :=
  history.findSome? fun entry => match entry.2 with
    | .ended _ => some entry.1
    | _ => none

@[simp] theorem receipts_append (history history' : History M) :
    receipts (history ++ history') = receipts history ++ receipts history' := List.filterMap_append

@[simp] theorem returns_append (history history' : History M) :
    returns (history ++ history') = returns history ++ returns history' := List.filterMap_append

@[simp] theorem endedAt?_append (history history' : History M) :
    endedAt? (history ++ history') = (endedAt? history).or (endedAt? history') := List.findSome?_append

end History

/-- Whether a deed is neither a message received nor the answer to a pull. -/
def RelayDeed.isSilent : RelayDeed M → Bool
  | .received _ | .returned _ => false
  | _ => true

theorem RelayDeed.isSilent_ofOutcome (outcome : Pulled M) : (RelayDeed.ofOutcome outcome).isSilent = true := by
  rcases outcome with _ | _ | _ <;> rfl

theorem Phase.isSilent_deed? (phase : Phase) : ∀ d ∈ (phase.deed? (M := M)).toList, d.isSilent = true := by
  cases phase <;> simp [Phase.deed?, RelayDeed.isSilent]

namespace Clocked

/-- What a loop writes down when it goes on says when it ends, if it had not ended before. -/
theorem kept_tidings {p : Poller M} (p' : Poller M) (running : p.phase ≠ .stopped) (now : Millis)
    {deeds : List (RelayDeed M)} (silent : ∀ d ∈ deeds, d.isSilent = true) :
    let news : History M := (tidings p p' deeds).map fun d => (now, d)
    History.receipts news = [] ∧ History.returns news = [] ∧
      History.endedAt? news = if p'.hasStopped then some now else none := by
  intro news
  have split : news = deeds.map (fun d => (now, .did d)) ++ (p.closed? p').toList.map fun d => (now, d) := by
    simp [news, tidings]
  have did : History.receipts (deeds.map fun d => (now, .did d)) = [] ∧
      History.returns (deeds.map fun d => (now, .did d)) = [] ∧
      History.endedAt? (deeds.map fun d => (now, .did d)) = none := by
    simp only [History.receipts, History.returns, History.endedAt?, List.filterMap_map, List.filterMap_eq_nil_iff,
      List.findSome?_map, List.findSome?_eq_none_iff]
    refine ⟨fun d mem => ?_, fun d mem => ?_, fun d mem => rfl⟩ <;> have quiet := silent d mem <;> cases d <;>
      first | rfl | cases quiet
  have closed : History.receipts ((p.closed? p').toList.map fun d => (now, d)) = [] ∧
      History.returns ((p.closed? p').toList.map fun d => (now, d)) = [] ∧
      History.endedAt? ((p.closed? p').toList.map fun d => (now, d)) = if p'.hasStopped then some now else none := by
    unfold Poller.closed? Poller.hasStopped
    split
    · next same => simp [History.receipts, History.returns, History.endedAt?, ← same, running]
    · split <;> simp_all [History.receipts, History.returns, History.endedAt?]
  rw [split, History.receipts_append, History.returns_append, History.endedAt?_append, did.1, did.2.1, did.2.2]
  exact closed

end Clocked

namespace Timeline

variable {source : Source σ ω M} {t t' : Timeline σ ω M} {c : Clocked M}

/-- A timeline and a loop on a clock agree. -/
structure Tracks (source : Source σ ω M) (t : Timeline σ ω M) (c : Clocked M) : Prop where
  poller : c.poller.quiet = t.poller.quiet
  home : c.errand = .unsent
  now : c.now = t.now
  received : History.receipts c.history = t.received.reverse
  pulls : (History.returns c.history).filter (source.lists ·.2) = t.pulls.reverse
  ended : History.endedAt? c.history = t.endedAt

/-- A pull of the timeline is three turns. -/
theorem Tracks.pull (tracks : Tracks source t c) (pulling : t.poller.isPulling = true) (outcome : Pulled M) (s : σ) :
    Tracks source
      ({ t with source := s, pulls := if source.lists outcome then (t.now, outcome) :: t.pulls else t.pulls }.goOn
        (t.poller.answer t.now outcome))
      (c.play [.act .depart, .act (.comeBack outcome), .act (.loop (.takeIn 0))]) := by
  obtain ⟨p, errand, now, past⟩ := c
  obtain ⟨same, rfl, rfl, received, pulls, ended⟩ := tracks
  dsimp only at same received pulls ended
  obtain ⟨left, pulled, phase⟩ : ∃ left pulled, p.phase = .pulling left pulled := by
    rw [Poller.phase_of_quiet same]
    cases phase : t.poller.phase <;> simp [Poller.isPulling, Poller.reserved, phase] at pulling ⊢
  have play : (⟨p, .unsent, t.now, past⟩ : Clocked M).play
        [.act .depart, .act (.comeBack outcome), .act (.loop (.takeIn 0))] =
      ⟨p.answer t.now outcome, .unsent, t.now,
        past ++ [(t.now, .did .departed)] ++ [(t.now, .did (.returned outcome))] ++
          (Clocked.tidings p (p.answer t.now outcome) [.ofOutcome outcome]).map fun d => (t.now, d)⟩ := by
    simp only [Clocked.play, List.foldl_cons, List.foldl_nil, Clocked.turn, RelayTurn.at, LoopTurn.at, Relay.turn,
      Relay.loopTurn, Clocked.relay, phase, Clocked.become_outside p p rfl, Clocked.become_eq]
  have answered := Poller.answer_of_quiet same t.now outcome
  have kept := Clocked.kept_tidings (p.answer t.now outcome) (by simp [phase] : p.phase ≠ .stopped) t.now
    (List.forall_mem_singleton.2 (RelayDeed.isSilent_ofOutcome outcome))
  rw [play]
  constructor
  case poller => exact answered
  case home => rfl
  case now => rfl
  case received =>
    have departed : History.receipts [(t.now, .did (.departed (M := M)))] = [] := rfl
    have returned : History.receipts [(t.now, .did (.returned outcome))] = [] := rfl
    simp only [History.receipts_append, departed, returned, kept.1, List.append_nil]
    exact received
  case pulls =>
    have departed : History.returns [(t.now, .did (.departed (M := M)))] = [] := rfl
    have returned : History.returns [(t.now, .did (.returned outcome))] = [(t.now, outcome)] := rfl
    simp only [History.returns_append, departed, returned, kept.2.1, List.append_nil, List.filter_append, pulls]
    cases listed : source.lists outcome <;> simp [Timeline.goOn, listed]
  case ended =>
    have departed : History.endedAt? [(t.now, .did (.departed (M := M)))] = none := rfl
    have returned : History.endedAt? [(t.now, .did (.returned outcome))] = none := rfl
    simp only [History.endedAt?_append, departed, returned, kept.2.2, Option.or_none, ended,
      Poller.hasStopped_of_quiet answered]
    simp [Timeline.goOn]

/-- The loop goes on of its own accord. -/
theorem Tracks.goOn (tracks : Tracks source t c) {p : Poller M} (h : t.poller.step? t.now = some p) :
    Tracks source (t.goOn p) (c.play [.act (.loop (.goOn 0))]) := by
  obtain ⟨q, errand, now, past⟩ := c
  obtain ⟨same, rfl, rfl, received, pulls, ended⟩ := tracks
  dsimp only at same received pulls ended
  obtain ⟨p', step, stepped⟩ := Poller.step?_of_quiet same h
  have play : (⟨q, .unsent, t.now, past⟩ : Clocked M).play [.act (.loop (.goOn 0))] =
      ⟨p', .unsent, t.now, past ++ (Clocked.tidings q p' p'.phase.deed?.toList).map fun d => (t.now, d)⟩ := by
    simp only [Clocked.play, List.foldl_cons, List.foldl_nil, Clocked.turn, RelayTurn.at, LoopTurn.at, Relay.turn,
      Relay.loopTurn, Clocked.relay, step, Clocked.become_eq]
  have running : q.phase ≠ .stopped := fun stopped => by simp [Poller.step?, stopped] at step
  have kept := Clocked.kept_tidings p' running t.now p'.phase.isSilent_deed?
  rw [play]
  constructor
  case poller => exact stepped
  case home => rfl
  case now => rfl
  case received =>
    simp only [History.receipts_append, kept.1, List.append_nil]
    exact received
  case pulls =>
    simp only [History.returns_append, kept.2.1, List.append_nil]
    exact pulls
  case ended =>
    simp only [History.endedAt?_append, kept.2.2, ended, Poller.hasStopped_of_quiet stepped]
    simp [Timeline.goOn]

/-- A deed that is neither a message received nor the answer to a pull. -/
theorem Tracks.note (tracks : Tracks source t c) {d : RelayDeed M} (silent : d.isSilent = true) {p q : Poller M}
    (same : p.quiet = q.quiet) :
    Tracks source { t with poller := q } ⟨p, .unsent, c.now, c.history ++ [(c.now, .did d)]⟩ := by
  have none : History.receipts [(c.now, .did d)] = [] ∧ History.returns [(c.now, .did d)] = [] ∧
      History.endedAt? [(c.now, .did d)] = none := by
    cases d <;> first | exact ⟨rfl, rfl, rfl⟩ | cases silent
  constructor
  case poller => exact same
  case home => rfl
  case now => exact tracks.now
  case received =>
    simp only [History.receipts_append, none.1, List.append_nil]
    exact tracks.received
  case pulls =>
    simp only [History.returns_append, none.2.1, List.append_nil]
    exact tracks.pulls
  case ended =>
    simp only [History.endedAt?_append, none.2.2, Option.or_none]
    exact tracks.ended

theorem Tracks.receive (tracks : Tracks source t c) : Tracks source t.receive (c.play [.act (.loop .receive)]) := by
  obtain ⟨p, errand, now, past⟩ := c
  obtain ⟨same, rfl, rfl, received, pulls, ended⟩ := tracks
  dsimp only at same received pulls ended
  have channel := Poller.channel_of_quiet same
  cases first : t.poller.channel.buffer with
  | nil =>
    have play : (⟨p, .unsent, t.now, past⟩ : Clocked M).play [.act (.loop .receive)] = ⟨p, .unsent, t.now, past⟩ := by
      simp only [Clocked.play, List.foldl_cons, List.foldl_nil, Clocked.turn, RelayTurn.at, LoopTurn.at, Relay.turn,
        Relay.loopTurn, Channel.receive, channel, first, Clocked.relay]
      exact Clocked.become_same _
    have receive : t.receive = t := by simp [Timeline.receive, Channel.receive, first]
    rw [play, receive]
    exact ⟨same, rfl, rfl, received, pulls, ended⟩
  | cons m rest =>
    have play : (⟨p, .unsent, t.now, past⟩ : Clocked M).play [.act (.loop .receive)] =
        ⟨{ p with channel := { t.poller.channel with buffer := rest } }, .unsent, t.now,
          past ++ [(t.now, .did (.received m))]⟩ := by
      simp only [Clocked.play, List.foldl_cons, List.foldl_nil, Clocked.turn, RelayTurn.at, LoopTurn.at, Relay.turn,
        Relay.loopTurn, Channel.receive, channel, first, Clocked.relay]
      exact Clocked.become_outside p { p with channel := { t.poller.channel with buffer := rest } } rfl _ _ _ _ _
    have receive : t.receive =
        { t with
          poller := { t.poller with channel := { t.poller.channel with buffer := rest } }
          received := (t.now, m) :: t.received } := by
      simp [Timeline.receive, Channel.receive, first]
    have receipt : History.receipts [(t.now, .did (.received m))] = [(t.now, m)] := rfl
    have none : History.returns [(t.now, .did (.received m))] = [] := rfl
    have going : History.endedAt? [(t.now, .did (.received m))] = Option.none := rfl
    rw [play, receive]
    constructor
    case poller => exact Poller.quiet_withChannel same _
    case home => rfl
    case now => rfl
    case received => simp only [History.receipts_append, receipt, received, List.reverse_cons]
    case pulls =>
      simp only [History.returns_append, none, List.append_nil]
      exact pulls
    case ended =>
      simp only [History.endedAt?_append, going, Option.or_none]
      exact ended

/-- What the outside world does is at most one turn. -/
theorem Tracks.happen (tracks : Tracks source t c) (e : OutsideEvent ω) :
    ∃ turns, Tracks source (t.happen source e) (c.play turns) := by
  have channel := Poller.channel_of_quiet tracks.poller
  have home := tracks.home
  cases e with
  | receive => exact ⟨_, tracks.receive⟩
  | hangUp =>
    refine ⟨[.act (.loop .hangUp)], ?_⟩
    have note := tracks.note (d := .hungUp) rfl (Poller.quiet_withChannel tracks.poller t.poller.channel.hangUp)
    obtain ⟨p, errand, now, past⟩ := c
    dsimp only at channel home
    subst home
    have play : (⟨p, .unsent, now, past⟩ : Clocked M).play [.act (.loop .hangUp)] =
        ⟨{ p with channel := t.poller.channel.hangUp }, .unsent, now, past ++ [(now, .did .hungUp)]⟩ := by
      rw [← channel]
      exact Clocked.become_outside p { p with channel := p.channel.hangUp } rfl _ _ _ _ _
    rw [play]
    exact note
  | cancel =>
    refine ⟨[.act (.loop .cancel)], ?_⟩
    have note := tracks.note (d := .cancelled) rfl (Poller.quiet_cancel tracks.poller)
    obtain ⟨p, errand, now, past⟩ := c
    dsimp only at channel home
    subst home
    have play : (⟨p, .unsent, now, past⟩ : Clocked M).play [.act (.loop .cancel)] =
        ⟨p.cancel, .unsent, now, past ++ [(now, .did .cancelled)]⟩ :=
      Clocked.become_outside p p.cancel rfl _ _ _ _ _
    rw [play]
    exact note
  | act action =>
    refine ⟨[], ?_⟩
    unfold Timeline.happen
    dsimp only
    split
    · exact tracks
    · exact ⟨tracks.poller, tracks.home, tracks.now, tracks.received, tracks.pulls, tracks.ended⟩

/-- Nothing that a loop does depends on what is still to come. -/
theorem Tracks.coming (tracks : Tracks source t c) (coming : List (Millis × OutsideEvent ω)) :
    Tracks source { t with coming := coming } c :=
  ⟨tracks.poller, tracks.home, tracks.now, tracks.received, tracks.pulls, tracks.ended⟩

/-- The clock of a timeline does not pass the time for which the loop waits. -/
theorem Tracks.wait (tracks : Tracks source t c) (free : t.poller.isPulling = false)
    (asleep : t.poller.step? t.now = none) {time : Millis} (wake : ∀ wake ∈ t.poller.wakeAt?, time ≤ wake) :
    Tracks source { t with now := max t.now time } (c.play [.wait time]) := by
  have still : c.poller.step? t.now = none := by
    by_contra awake
    obtain ⟨p, step⟩ := Option.ne_none_iff_exists'.1 awake
    obtain ⟨q, step', -⟩ := Poller.step?_of_quiet tracks.poller.symm step
    rw [asleep] at step'
    cases step'
  have waits : c.waitsFor time = true := by
    rw [← Poller.isPulling_of_quiet tracks.poller] at free
    rw [← Poller.wakeAt?_of_quiet tracks.poller] at wake
    simp only [Clocked.waitsFor, free, tracks.now, still, Option.all_eq_true, Bool.not_false, Option.isNone_none,
      Bool.and_self, Bool.true_and, decide_eq_true_eq]
    exact wake
  have play : c.play [.wait time] = { c with now := max c.now time } := by
    simp [Clocked.play, Clocked.turn, waits]
  rw [play]
  exact ⟨tracks.poller, tracks.home, by rw [tracks.now], tracks.received, tracks.pulls, tracks.ended⟩

theorem Tracks.moveOn (tracks : Tracks source t c) (free : t.poller.isPulling = false)
    (asleep : t.poller.step? t.now = none) (h : t.moveOn source = some t') : ∃ turns, Tracks source t' (c.play turns) := by
  -- the clock moves on to an event that comes before the loop wakes
  have event {time : Millis} (e : OutsideEvent ω) (rest : List (Millis × OutsideEvent ω))
      (wake : ∀ wake ∈ t.poller.wakeAt?, time ≤ wake) :
      ∃ turns, Tracks source ({ t with now := max t.now time, coming := rest }.happen source e) (c.play turns) := by
    obtain ⟨turns, happened⟩ := ((tracks.wait free asleep wake).coming rest).happen e
    exact ⟨.wait time :: turns, happened⟩
  unfold Timeline.moveOn at h
  dsimp only at h
  split at h
  · cases h
  · next wake _ woken =>
    cases h
    exact ⟨[.wait wake], tracks.wait free asleep fun wake' mem => by
      obtain rfl : wake = wake' := Option.some.inj (woken.symm.trans mem)
      exact Nat.le_refl _⟩
  · next time e rest _ never =>
    cases h
    exact event e rest fun wake mem => by simp [never] at mem
  · next time e rest wake _ woken =>
    split at h
    · next early =>
      cases h
      refine event e rest fun wake' mem => ?_
      obtain rfl : wake = wake' := Option.some.inj (woken.symm.trans mem)
      exact early
    · cases h
      exact ⟨[.wait wake], tracks.wait free asleep fun wake' mem => by
        obtain rfl : wake = wake' := Option.some.inj (woken.symm.trans mem)
        exact Nat.le_refl _⟩

theorem Tracks.step (tracks : Tracks source t c) (h : t.step? source = some t') :
    ∃ turns, Tracks source t' (c.play turns) := by
  unfold step? at h
  split at h
  · next pulling =>
    dsimp only at h
    cases h
    exact ⟨_, tracks.pull pulling _ _⟩
  · next free =>
    split at h
    · next p step =>
      cases h
      exact ⟨_, tracks.goOn step⟩
    · next asleep =>
      split at h
      · cases h
        exact ⟨_, tracks.receive⟩
      · exact tracks.moveOn (by simpa using free) asleep h

theorem Tracks.run (tracks : Tracks source t c) (fuel : Nat) :
    ∃ turns, Tracks source (t.run source fuel) (c.play turns) := by
  induction fuel generalizing t c with
  | zero => exact ⟨[], tracks⟩
  | succ fuel ih =>
    rw [Timeline.run]
    split
    · exact ⟨[], tracks⟩
    · next t' step =>
      obtain ⟨turns, tracks⟩ := tracks.step step
      obtain ⟨turns', tracks⟩ := ih tracks
      exact ⟨turns ++ turns', c.play_append turns turns' ▸ tracks⟩

end Timeline

/-- A plan begins with at most two turns. -/
theorem Plan.tracks_start (plan : Plan ω M) (source : Source σ ω M) (poller : Poller M) (state : σ) :
    ∃ turns, (plan.start poller state).Tracks source (({ poller := poller } : Clocked M).play turns) := by
  have fresh : Timeline.Tracks source { plan.start poller state with poller := poller } { poller := poller } :=
    ⟨rfl, rfl, rfl, rfl, rfl, rfl⟩
  have begun : ∃ turns, Timeline.Tracks source
      { plan.start poller state with
        poller := if plan.mode = .attached && plan.cancelFirst then poller.cancel else poller }
      (({ poller := poller } : Clocked M).play turns) := by
    split
    · exact fresh.happen .cancel
    · exact ⟨[], fresh⟩
  obtain ⟨turns, begun⟩ := begun
  cases consumer : plan.consumer with
  | absent =>
    obtain ⟨turns', deaf⟩ := begun.happen .hangUp
    refine ⟨turns ++ turns', ?_⟩
    rw [Clocked.play_append]
    simpa [Timeline.happen, start, consumer] using deaf
  | eager | scheduled => exact ⟨turns, by simpa [start, consumer] using begun⟩

/-- What comes of a plan is what comes of some turns of a loop on a clock, with the same times. -/
theorem Plan.exists_turns (plan : Plan ω M) (source : Source σ ω M) (supply : Nat) (poller : Poller M) (state : σ) :
    ∃ turns : List (ClockTurn M),
      let c := ({ poller := poller } : Clocked M).play turns
      let result := plan.play source supply poller state
      c.errand = .unsent ∧ c.poller.report = result.report ∧ c.poller.channel.buffer = result.undelivered ∧
        History.receipts c.history = result.received ∧
        (History.returns c.history).filter (source.lists ·.2) = result.pulls ∧
        (History.endedAt? c.history).any (· < plan.stopAt) = result.endedEarly ∧
        (plan.mode = .attached → (History.endedAt? c.history).getD c.now = result.endedAt) := by
  obtain ⟨first, start⟩ := plan.tracks_start source poller state
  obtain ⟨turns, tracks⟩ := start.run (plan.fuel supply)
  refine ⟨first ++ turns, ?_⟩
  rw [Clocked.play_append]
  have report := congrArg Poller.report tracks.poller
  have channel := congrArg Channel.buffer (Poller.channel_of_quiet tracks.poller)
  refine ⟨tracks.home, report, channel, tracks.received, tracks.pulls, by rw [tracks.ended]; rfl, fun attached => ?_⟩
  rw [tracks.ended, tracks.now]
  simp only [play, attached]

end CorrelationBarrier
