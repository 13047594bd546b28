import CorrelationBarrier.Proofs.Poller.Relay

/-!
# What is pulled is handed over

A poll loop puts into its channel what its source comes back with, message for message and in that order, and into a slot
that it holds before the source begins.

* `RelayDeed.RestsOn` — what must have come before a deed;
* `Channel.after` — what a deed does to the channel;
* `Relay.Sound` — what the state of a loop says about its log, kept by every step: `Step.sound`;
* `Relay.hands_over_what_it_pulls` — whatever the turns.
-/

namespace CorrelationBarrier

variable {M : Type}

/-- The channel after a deed. -/
def Channel.after (c : Channel M) : RelayDeed M → Channel M
  | .sent m => c.push m
  | .received _ => c.receive.2
  | .hungUp => c.hangUp
  | _ => c

/-- The message that the source has come back with and that the loop has not taken in. -/
def Errand.inHand : Errand M → List M
  | .back (.ok (some m)) => [m]
  | _ => []

namespace RelayDeed

/-- The last deed in a log that is not one of the receiver or of whoever cancels the loop. -/
def lastOwn (log : List (RelayDeed M)) : Option (RelayDeed M) := (log.filter isOwn).getLast?

/-- What must have come before a deed. A slot is reserved only while somebody receives and the loop is not cancelled. -/
def RestsOn (before : List (RelayDeed M)) : RelayDeed M → Prop
  | .reserved =>
    .cancelled ∉ before ∧ .hungUp ∉ before ∧ (lastOwn before = some .polled ∨ ∃ m, lastOwn before = some (.sent m))
  | .departed => lastOwn before = some .reserved
  | .returned _ => lastOwn before = some .departed
  | .sent m => lastOwn before = some (.returned (.ok (some m)))
  | .freed => lastOwn before = some (.returned (.ok none)) ∨ ∃ e, lastOwn before = some (.returned (.error e))
  | _ => True

/-- Every deed of a log rests on what came before it. -/
def Founded (log : List (RelayDeed M)) : Prop := ∀ before d after, log = before ++ d :: after → d.RestsOn before

theorem founded_concat {log : List (RelayDeed M)} {d : RelayDeed M} (founded : Founded log) (rests : d.RestsOn log) :
    Founded (log ++ [d]) := by
  intro before e after h
  rcases List.eq_nil_or_concat after with rfl | ⟨after, last, rfl⟩
  · obtain ⟨rfl, hd⟩ := List.append_inj' h rfl
    cases hd
    exact rests
  · have h : log ++ [d] = (before ++ e :: after) ++ [last] := by simpa using h
    exact founded before e after (List.append_inj' h rfl).1

theorem lastOwn_concat (log : List (RelayDeed M)) (d : RelayDeed M) :
    lastOwn (log ++ [d]) = if d.isOwn then some d else lastOwn log := by
  unfold lastOwn
  rw [List.filter_append]
  cases hd : d.isOwn <;> simp [hd]

/-- After a moment from which no slot is reserved, the source begins with a pull only if the slot for it was reserved
before, and nothing was done about it in between. -/
theorem Founded.departed_after {log before middle after : List (RelayDeed M)} {d : RelayDeed M} (founded : Founded log)
    (h : log = before ++ d :: middle ++ .departed :: after) (hd : d = .cancelled ∨ d = .hungUp) :
    lastOwn before = some .reserved ∧ ∀ e ∈ middle, e.isOwn = false := by
  have notOwn : d.isOwn = false := by rcases hd with rfl | rfl <;> rfl
  have unreserved : .reserved ∉ middle := fun mem => by
    obtain ⟨s, t, rfl⟩ := List.append_of_mem mem
    obtain ⟨uncancelled, open_, -⟩ := founded (before ++ d :: s) .reserved (t ++ .departed :: after) (by simp [h])
    rcases hd with rfl | rfl
    · exact uncancelled (by simp)
    · exact open_ (by simp)
  have last : lastOwn (before ++ d :: middle) = some .reserved := founded _ .departed after h
  simp only [lastOwn, List.filter_append, List.filter_cons_of_neg (ne_true_of_eq_false notOwn)] at last
  rcases List.eq_nil_or_concat (middle.filter isOwn) with none | ⟨own, e, some⟩
  · rw [none, List.append_nil] at last
    exact ⟨last, fun e he => by simpa using List.filter_eq_nil_iff.1 none e he⟩
  · have he : e = .reserved := by simpa [some] using last
    have mem : e ∈ middle.filter isOwn := by simp [some]
    exact absurd (he ▸ (List.mem_filter.1 mem).1) unreserved

end RelayDeed

namespace Relay

/-- What the last deed of the loop and the source was, as far as their state tells. -/
def Marked (r : Relay M) : Prop :=
  match r.errand, r.poller.phase with
  | .away, _ => RelayDeed.lastOwn r.log = some .departed
  | .back outcome, _ => RelayDeed.lastOwn r.log = some (.returned outcome)
  | .unsent, .pulling _ _ => RelayDeed.lastOwn r.log = some .reserved
  | .unsent, .asking _ _ =>
    RelayDeed.lastOwn r.log = some .polled ∨ ∃ m, RelayDeed.lastOwn r.log = some (.sent m)
  | .unsent, _ => True

/-- What the state of a loop says about its log, for a loop that began with the channel `start`. -/
structure Sound (r : Relay M) (start : Channel M) : Prop where
  apt : r.Apt
  channel : r.poller.channel = r.log.foldl Channel.after start
  cancelled : r.poller.cancelled = true ↔ .cancelled ∈ r.log
  listening : r.poller.channel.listening = true ↔ .hungUp ∉ r.log
  /-- The reserved slot is free. -/
  bounded : r.poller.channel.buffer.length + r.poller.reserved ≤ r.poller.channel.capacity
  capacity : r.poller.channel.capacity = start.capacity
  brought : r.log.filterMap RelayDeed.brought? = r.log.filterMap RelayDeed.sent? ++ r.errand.inHand
  arrived : r.poller.channel.listening = true →
    r.log.filterMap RelayDeed.received? ++ r.poller.channel.buffer = start.buffer ++ r.log.filterMap RelayDeed.sent?
  marked : r.Marked
  founded : RelayDeed.Founded r.log

/-! ## what a step keeps -/

variable {r r' : Relay M} {start : Channel M}

theorem Step.channel (step : Step r r') (channel : r.poller.channel = r.log.foldl Channel.after start) :
    r'.poller.channel = r'.log.foldl Channel.after start := by
  cases step with
  | ended | stopped => simpa using channel
  | polled | reserved | departed | returned | handedOn | cameEmpty | failed | hungUp | cancelled =>
    simp_all [← channel, Channel.after]
  | received first => simp_all [← channel, Channel.after, Channel.receive]

theorem Step.cancelled_iff (step : Step r r') (cancelled : r.poller.cancelled = true ↔ .cancelled ∈ r.log) :
    r'.poller.cancelled = true ↔ .cancelled ∈ r'.log := by
  cases step <;> simp_all [Poller.cancel]

theorem Step.listening_iff (step : Step r r') (listening : r.poller.channel.listening = true ↔ .hungUp ∉ r.log) :
    r'.poller.channel.listening = true ↔ .hungUp ∉ r'.log := by
  cases step <;> simp_all [Channel.hangUp]

theorem Step.capacity (step : Step r r') : r'.poller.channel.capacity = r.poller.channel.capacity := by
  cases step <;> simp [Channel.hangUp]

/-- A slot is reserved only if it is free, and it takes no more than one message. -/
theorem Step.bounded (step : Step r r')
    (bounded : r.poller.channel.buffer.length + r.poller.reserved ≤ r.poller.channel.capacity) :
    r'.poller.channel.buffer.length + r'.poller.reserved ≤ r'.poller.channel.capacity := by
  have unreserved : r.poller.channel.buffer.length ≤ r.poller.channel.capacity := by omega
  cases step with
  | polled | stopped | failed => simpa [Poller.reserved] using unreserved
  | ended | cameEmpty => simpa using unreserved
  | reserved _ _ _ room => exact of_decide_eq_true room
  | @handedOn p _ m _ _ phase =>
    have room : p.channel.hasRoom = true := by
      rw [Poller.reserved_pulling phase] at bounded
      exact decide_eq_true bounded
    exact p.channel.push_capacity m ▸ Channel.length_push room m
  | departed | returned | cancelled => exact bounded
  | @received p _ _ _ rest first =>
    show rest.length + p.reserved ≤ p.channel.capacity
    simp only [first, List.length_cons] at bounded
    omega
  | @hungUp p =>
    show 0 + p.reserved ≤ p.channel.capacity
    simp only at bounded
    omega

theorem Step.brought (step : Step r r')
    (brought : r.log.filterMap RelayDeed.brought? = r.log.filterMap RelayDeed.sent? ++ r.errand.inHand) :
    r'.log.filterMap RelayDeed.brought? = r'.log.filterMap RelayDeed.sent? ++ r'.errand.inHand := by
  cases step with
  | ended | stopped => exact brought
  | returned outcome =>
    rcases outcome with _ | _ | m <;>
      simpa [List.filterMap_cons, RelayDeed.brought?, RelayDeed.sent?, Errand.inHand] using brought
  | polled | reserved | departed | handedOn | cameEmpty | failed =>
    simpa [List.filterMap_cons, RelayDeed.brought?, RelayDeed.sent?, Errand.inHand] using brought
  | received | hungUp | cancelled =>
    simpa [List.filterMap_cons, RelayDeed.brought?, RelayDeed.sent?] using brought

theorem Step.arrived {prefill : List M} (step : Step r r')
    (arrived : r.poller.channel.listening = true →
      r.log.filterMap RelayDeed.received? ++ r.poller.channel.buffer = prefill ++ r.log.filterMap RelayDeed.sent?) :
    r'.poller.channel.listening = true →
      r'.log.filterMap RelayDeed.received? ++ r'.poller.channel.buffer =
        prefill ++ r'.log.filterMap RelayDeed.sent? := by
  cases step with
  | ended | stopped => simpa using arrived
  | @handedOn p log m =>
    intro listening
    have listening : p.channel.listening = true := by simpa using listening
    have before := arrived listening
    simp only at before
    simp [RelayDeed.received?, RelayDeed.sent?, Channel.push_buffer, listening, ← before,
      ← List.append_assoc]
  | received first =>
    simpa [List.filterMap_cons, RelayDeed.received?, RelayDeed.sent?, first] using arrived
  | hungUp => exact fun deaf => absurd deaf Bool.false_ne_true
  | polled | reserved | departed | returned | cameEmpty | failed | cancelled =>
    simpa [List.filterMap_cons, RelayDeed.received?, RelayDeed.sent?] using arrived

theorem Step.marked (step : Step r r') (marked : r.Marked) : r'.Marked := by
  cases step with
  | @ended p _ pulled | @cameEmpty p _ _ pulled =>
    simp only [Marked, Poller.endPoll_phase]
    cases p.channel.listening <;> trivial
  | polled | reserved | stopped | departed | returned | handedOn | failed | received | hungUp | cancelled =>
    simp_all [Marked, RelayDeed.lastOwn_concat, RelayDeed.isOwn]

theorem Step.founded (step : Step r r') (marked : r.Marked)
    (cancelled : r.poller.cancelled = true ↔ .cancelled ∈ r.log)
    (listening : r.poller.channel.listening = true ↔ .hungUp ∉ r.log) (founded : RelayDeed.Founded r.log) :
    RelayDeed.Founded r'.log := by
  cases step with
  | ended | stopped => exact founded
  | polled | received | hungUp | cancelled => exact RelayDeed.founded_concat founded trivial
  | reserved phase active open_ =>
    refine RelayDeed.founded_concat founded ⟨?_, ?_, ?_⟩
    · simpa [active] using cancelled
    · exact listening.1 open_
    · simpa [Marked, phase] using marked
  | departed phase => exact RelayDeed.founded_concat founded (by simpa [Marked, phase, RelayDeed.RestsOn] using marked)
  | returned | handedOn => exact RelayDeed.founded_concat founded marked
  | cameEmpty => exact RelayDeed.founded_concat founded (.inl marked)
  | failed failure => exact RelayDeed.founded_concat founded (.inr ⟨failure, marked⟩)

theorem Step.sound (step : Step r r') (sound : r.Sound start) : r'.Sound start where
  apt := step.apt sound.apt
  channel := step.channel sound.channel
  cancelled := step.cancelled_iff sound.cancelled
  listening := step.listening_iff sound.listening
  bounded := step.bounded sound.bounded
  capacity := step.capacity.trans sound.capacity
  brought := step.brought sound.brought
  arrived := step.arrived sound.arrived
  marked := step.marked sound.marked
  founded := step.founded sound.marked sound.cancelled sound.listening sound.founded

theorem sound_start {p : Poller M} (phase : p.phase = .idle) (active : p.cancelled = false)
    (listening : p.channel.listening = true) (fits : p.channel.buffer.length ≤ p.channel.capacity) :
    ({ poller := p } : Relay M).Sound p.channel where
  apt := fun away => absurd rfl away
  channel := rfl
  cancelled := by simp [active]
  listening := by simp [listening]
  bounded := by simpa [Poller.reserved, phase] using fits
  capacity := rfl
  brought := rfl
  arrived := fun _ => by simp
  marked := by simp [Marked, phase]
  founded := fun before d after h => by simp at h

/-- **What is pulled is handed over.** A poll loop with settings that are valid, on a channel of any capacity with messages
in it, and any series of turns of the loop, its source, the receiver and whoever cancels it. -/
theorem hands_over_what_it_pulls {settings : PollerSettings} {capacity : Nat} {prefill : List M} {p : Poller M}
    (fits : prefill.length ≤ capacity)
    (accepted : Poller.new settings { capacity := capacity, buffer := prefill } = .ok p) (turns : List (RelayTurn M)) :
    let r := ({ poller := p } : Relay M).play turns
    let sent := r.log.filterMap RelayDeed.sent?
    let brought := r.log.filterMap RelayDeed.brought?
    -- between pulls and at the end, what was sent is what the source came back with
    (r.errand = .unsent → sent = brought) ∧ (r.poller.hasStopped = true → r.errand = .unsent) ∧
    r.poller.channel = r.log.foldl Channel.after { capacity := capacity, buffer := prefill } ∧
    -- a pull begins with a slot, which the loop holds on to until it has taken the answer in
    RelayDeed.Founded r.log ∧ (r.errand ≠ .unsent → r.poller.reserved = 1) ∧
    r.poller.channel.buffer.length + r.poller.reserved ≤ capacity ∧
    (∀ outcome now, r.errand = .back outcome →
      let r' := r.turn (.loop (.takeIn now))
      r.poller.channel.hasRoom = true ∧ r'.errand = .unsent ∧ r'.log = r.log ++ [.ofOutcome outcome] ∧
        r'.poller.reserved = 0 ∧ r'.poller.channel = r.poller.channel.after (.ofOutcome outcome)) ∧
    -- no slot is reserved for a loop that is cancelled or that nobody listens to
    (∀ before d middle after, r.log = before ++ d :: middle ++ .departed :: after → d = .cancelled ∨ d = .hungUp →
      RelayDeed.lastOwn before = some .reserved ∧ ∀ e ∈ middle, e.isOwn = false) ∧
    (r.poller.channel.listening = true →
      r.log.filterMap RelayDeed.received? ++ r.poller.channel.buffer = prefill ++ sent) := by
  intro r sent brought
  obtain ⟨rfl, -⟩ := Poller.new_eq_ok_iff.1 accepted
  have sound : r.Sound { capacity := capacity, buffer := prefill } :=
    play_induction (P := (Sound · _)) (sound_start rfl rfl rfl fits) (fun _ _ step sound => step.sound sound) turns
  have bounded : r.poller.channel.buffer.length + r.poller.reserved ≤ capacity :=
    Nat.le_trans sound.bounded (Nat.le_of_eq sound.capacity)
  refine ⟨fun home => ?_, sound.apt.home, sound.channel, sound.founded, sound.apt.reserved, bounded,
    fun outcome now back => ?_, fun before d middle after h hd => sound.founded.departed_after h hd, sound.arrived⟩
  · simpa [home, Errand.inHand] using sound.brought.symm
  · have away : r.errand ≠ .unsent := by simp [back]
    obtain ⟨left, pulled, phase⟩ := sound.apt away
    have room : r.poller.channel.hasRoom = true := by
      have bounded := sound.bounded
      rw [sound.apt.reserved away] at bounded
      exact decide_eq_true bounded
    refine ⟨room, ?_⟩
    simp only [turn, loopTurn, back, Poller.answer, phase]
    rcases outcome with failure | _ | m
    · exact ⟨trivial, trivial, rfl, rfl⟩
    · exact ⟨trivial, trivial, Poller.endPoll_reserved pulled, Poller.endPoll_channel pulled⟩
    · exact ⟨trivial, trivial, rfl, rfl⟩

/-- A poll of a loop on a channel with one free slot. The first message fills it, and the loop waits until the receiver
takes the older one out. While the source works on the second pull, the loop is cancelled; its message still arrives. -/
theorem hands_over_after_cancelling :
    let p : Poller Nat := { settings := { maxMessagesPerPoll := 5 }, channel := { capacity := 2, buffer := [7] } }
    let goOn : RelayTurn Nat := .loop (.goOn 0)
    let turns := [goOn, goOn, .depart, .comeBack (.ok (some 8)), .loop (.takeIn 0), goOn, .loop .receive, goOn, .depart,
      .loop .cancel, .comeBack (.ok (some 9)), .loop (.takeIn 0), goOn]
    [7].length ≤ 2 ∧ Poller.new { maxMessagesPerPoll := 5 } { capacity := 2, buffer := [7] } = .ok p ∧
      (({ poller := p } : Relay Nat).play turns).poller.hasStopped = true ∧
      (({ poller := p } : Relay Nat).play turns).log.filterMap RelayDeed.brought? = [8, 9] ∧
      (({ poller := p } : Relay Nat).play turns).log.filterMap RelayDeed.sent? = [8, 9] ∧
      (({ poller := p } : Relay Nat).play turns).poller.channel.buffer = [8, 9] := by
  intro p goOn turns
  have fits : [7].length ≤ 2 := by decide
  have accepted : Poller.new { maxMessagesPerPoll := 5 } { capacity := 2, buffer := [7] } = .ok p :=
    Poller.new_eq_ok_iff.2 ⟨rfl, by decide, by decide⟩
  have stopped : (({ poller := p } : Relay Nat).play turns).poller.hasStopped = true := by decide +kernel
  have brought : (({ poller := p } : Relay Nat).play turns).log.filterMap RelayDeed.brought? = [8, 9] := by
    decide +kernel
  obtain ⟨handed, home, -⟩ := hands_over_what_it_pulls fits accepted turns
  exact ⟨fits, accepted, stopped, brought, (handed (home stopped)).trans brought, by decide +kernel⟩

end Relay

end CorrelationBarrier
