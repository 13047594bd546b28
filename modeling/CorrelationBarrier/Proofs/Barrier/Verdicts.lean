import CorrelationBarrier.Proofs.Barrier.Failure
import CorrelationBarrier.Proofs.Barrier.Policies
import CorrelationBarrier.Proofs.Barrier.Tour

/-!
# What a pull does to every key

A pull walks past keys that bring nothing, until one gives a message, one cannot be judged, or no key is left. What it does
to a key depends on the group of this key alone.

* `Barrier.verdictAt` — what a visit has to come to, as the group of the key says at an instant; `judged_stop` — every stop
  comes to the verdict of the instant at which it reads the clock;
* `Barrier.Past`, `Barrier.Ended` — the keys that a walk is past, each with its verdict, and how the walk ends;
  `exists_walked` — every walk is of this kind;
* `Barrier.Passed`, `Barrier.EndsAt` — what becomes of a key that a pull walks past, and of the one where it ends;
* `pull_takes_first_ready` — the result for a whole pull.
-/

namespace CorrelationBarrier

variable {K M : Type}

variable [DecidableEq K]

namespace Barrier

/-- What a visit to a key at the instant `now` has to come to, by the group of this key alone. -/
def verdictAt (b : Barrier K M) (now : Instant) (k : K) : Outcome (BarrierError K) (Visit M) :=
  match b.store.group k with
  | none => .ok .stale
  | some g => Matches.verdict k g (b.rules.release g now)

variable {b b' : Barrier K M} {k : K} {now : Instant}

theorem verdictAt_congr (rules : b'.rules = b.rules) (group : b'.store.group k = b.store.group k) (now : Instant) :
    b'.verdictAt now k = b.verdictAt now k := by
  simp only [verdictAt, rules, group]

theorem verdictAt_none (group : b.store.group k = none) : b.verdictAt now k = .ok .stale := by
  rw [verdictAt, group]

theorem verdictAt_some {g : Group K M} (group : b.store.group k = some g) :
    b.verdictAt now k = Matches.verdict k g (b.rules.release g now) := by
  rw [verdictAt, group]

/-- The verdicts with their reasons. -/
inductive Judged (b : Barrier K M) (now : Instant) (k : K) : Outcome (BarrierError K) (Visit M) → Prop where
  | stale (group : b.store.group k = none) : Judged b now k (.ok .stale)
  | failed {g f} (group : b.store.group k = some g) (judged : b.rules.release g now = .error f) :
    Judged b now k (.error (f.map (.release k)))
  | held {g} (group : b.store.group k = some g) (judged : b.rules.release g now = .ok false) : Judged b now k (.ok .held)
  | released {g m rest} (group : b.store.group k = some g) (judged : b.rules.release g now = .ok true)
    (unmarked : g.unmarked = m :: rest) : Judged b now k (.ok (.released m))
  | drained {g} (group : b.store.group k = some g) (judged : b.rules.release g now = .ok true)
    (unmarked : g.unmarked = []) : Judged b now k (.ok .drained)

theorem judged_of_verdictAt {a : Outcome (BarrierError K) (Visit M)} (verdict : b.verdictAt now k = a) :
    b.Judged now k a := by
  subst verdict
  cases group : b.store.group k with
  | none =>
    rw [verdictAt_none group]
    exact .stale group
  | some g =>
    rw [verdictAt_some group]
    rcases judged : b.rules.release g now with f | _ | _
    · exact .failed group judged
    · exact .held group judged
    · unfold Matches.verdict
      cases unmarked : g.unmarked with
      | nil => exact .drained group judged unmarked
      | cons m rest => exact .released group judged unmarked

variable [BEq M]

/-! ## the instant of a visit -/

/-- Inside its section a visit reads the clock in its second call, and comes to the verdict of this instant. -/
theorem judged_visit (clock : Nat → Instant) (b : Barrier K M) (k : K) (n : Nat) :
    ((Act.visit b.rules b.table.policy k).run Shared.inTurn (onTime clock) (b.inside k n)).1 =
      b.verdictAt (clock (n + 1)) k := by
  unfold Act.visit inside
  rw [Program.run_ask (Shared.read_of_no_fault rfl)]
  cases group : b.shared.store.group k with
  | none =>
    rw [verdictAt_none group]
    cases b.table.policy <;> rfl
  | some g =>
    have read : (b.shared.noted .group k).perform (onTime clock (n + 1)) .clock =
      (clock (n + 1), b.shared.noted .group k) := rfl
    rw [verdictAt_some group]
    dsimp only
    rw [Program.run_ask read]
    cases b.rules.release g (clock (n + 1)) with
    | error f => rfl
    | ok may =>
      cases may with
      | false => rfl
      | true =>
        unfold Matches.verdict
        cases g.unmarked with
        | cons m rest =>
          dsimp only
          rcases Program.run_handOut (onTime clock) k m _ _ (n + 2) (b.shared.noted .group k) b.rules.mode with
            ⟨fault, fails, -⟩ | given
          · cases fails
          · rw [given]
        | nil =>
          dsimp only
          rcases Program.run_dropDrained (onTime clock) k _ (n + 2) (b.shared.noted .group k) _ _ with
            ⟨fault, fails, -⟩ | dropped
          · cases fails
          · rw [dropped]

/-- A stop comes to the verdict of some instant, and to what `Visits` says. -/
theorem judged_stop (clock : Nat → Instant) (b : Barrier K M) (k : K) (n : Nat) :
    ∃ b' n' i, b.stopAt (onTime clock) k n = (⟨k, b, b.verdictAt (clock i) k, b'⟩, n') ∧
      b.Visits (onTime clock) k (b.verdictAt (clock i) k) b' := by
  obtain ⟨a, b', n', stop, visits, stopped⟩ := stopAt_cases (onTime clock) b k n
  obtain ⟨a', t, n'', d, ran, -⟩ := visits_visit (onTime clock) b k n
  have judged : a' = b.verdictAt (clock (n + 1)) k := by rw [← judged_visit, ran]
  have inSection := Program.run_section ran
  have same : (Act.stop b.rules b.table.policy k).run Shared.inTurn (onTime clock) (b.solo n) = _ :=
    Program.run_bind Shared.inTurn (onTime clock) (Program.within k (Act.visit b.rules b.table.policy k)) _ (b.solo n)
  rw [solo, inSection] at same
  have outcome : a = a' := by
    have first := congrArg Prod.fst (stopped.symm.trans same)
    rcases a' with f | (m | _ | _ | _) <;> exact first
  subst judged
  subst outcome
  exact ⟨b', n', n + 1, stop, visits⟩

/-! ## the keys that a walk is past -/

omit [BEq M] in
theorem Swept.refl (b : Barrier K M) : b.Swept b [] [] where
  rules := rfl
  policy := rfl
  among := .refl _
  drained := nofun
  store := rfl
  current j := by simp
  stats := Stats.ext_counters rfl rfl (UInt64.add_zero _).symm (UInt64.add_zero _).symm
  handed := rfl
  made := rfl
  held _ h := h
  retired _ h := .inl h

omit [BEq M] in
/-- The groups that a walk has dropped are those that were there and are gone. -/
theorem Swept.length_dropped {walked dropped : List K} (swept : b.Swept b' walked dropped) (nodup : walked.Nodup) :
    dropped.length = walked.countP fun k => (b.store.group k).isSome && (b'.store.group k).isNone := by
  have members : ∀ k ∈ walked, decide (k ∈ dropped) = ((b.store.group k).isSome && (b'.store.group k).isNone) := by
    intro k _
    rw [swept.group]
    by_cases gone : k ∈ dropped
    · obtain ⟨g, -, group, -⟩ := swept.drained k gone
      simp [gone, group]
    · cases group : b.store.group k <;> simp [gone]
  rw [List.countP_eq_length_filter, ← List.filter_congr members, filter_mem_of_sublist swept.among nodup]

/-- A visit that brought nothing sweeps its key, and drops the group if this is its verdict. -/
theorem Visits.swept_by {envs : Nat → Surroundings} {v : Visit M} (mem : k ∈ b.table.keys)
    (visits : b.Visits envs k (.ok v) b') (nothing : ∀ m, v ≠ .released m) :
    ∃ dropped, b.Swept b' [k] dropped ∧ (k ∈ dropped ↔ v = .drained) := by
  obtain ⟨dropped, swept⟩ := visits.swept mem nothing
  have left := swept.group k
  refine ⟨dropped, swept, fun gone => ?_, fun is => ?_⟩
  · rw [if_pos gone] at left
    obtain ⟨g, -, group, -⟩ := swept.drained k gone
    cases visits with
    | released => exact absurd rfl (nothing _)
    | drained => rfl
    | held _ _ leaves =>
      rw [leaves.store, group] at left
      cases left
    | forgotten _ none | missed _ none =>
      rw [group] at none
      cases none
  · subst is
    by_contra kept
    rw [if_neg kept] at left
    cases visits with
    | drained group _ _ leaves =>
      rw [leaves.store, GroupStore.group_dropGroup, if_pos rfl, group] at left
      cases left

omit [BEq M] in
/-- What a walk has made of the keys `walked` that it is past: each was visited at its instant, brought nothing, and was
swept by its verdict. -/
structure Past (b b' : Barrier K M) (asked : K → Instant) (walked dropped : List K) : Prop where
  swept : b.Swept b' walked dropped
  vain : ∀ k ∈ walked, ∃ v, b.verdictAt (asked k) k = .ok v ∧ (∀ m, v ≠ .released m) ∧ (k ∈ dropped ↔ v = .drained)

/-- How a walk ends: with its keys, or where one of them brings a message or cannot be judged. -/
inductive Ended (clock : Nat → Instant) (b b' : Barrier K M) (asked : K → Instant) :
    List K → Outcome (BarrierError K) (Option M) → Prop where
  | through (left : b' = b) : Ended clock b b' asked [] (.ok none)
  | released {k rest m} (visits : b.Visits (onTime clock) k (.ok (.released m)) b')
    (judged : b.verdictAt (asked k) k = .ok (.released m)) : Ended clock b b' asked (k :: rest) (.ok (some m))
  | failed {k rest f} (visits : b.Visits (onTime clock) k (.error f) b')
    (judged : b.verdictAt (asked k) k = .error f) : Ended clock b b' asked (k :: rest) (.error f)

variable {clock : Nat → Instant} {b₁ b₂ : Barrier K M} {asked asked' : K → Instant} {walked dropped rest : List K}

omit [BEq M] in
theorem Past.start (b : Barrier K M) (asked : K → Instant) : b.Past b asked [] [] where
  swept := .refl b
  vain := by simp

/-- A walk that goes on after a visit is past one key more. -/
theorem Past.cons {v : Visit M} (mem : k ∈ b.table.keys) (visits : b.Visits (onTime clock) k (.ok v) b')
    (nothing : ∀ m, v ≠ .released m) (judged : b.verdictAt (asked' k) k = .ok v) (off : k ∉ walked)
    (others : ∀ j ∈ walked, asked' j = asked j) (past : b'.Past b₁ asked walked dropped) :
    ∃ dropped', b.Past b₁ asked' (k :: walked) dropped' := by
  obtain ⟨first, swept, drains⟩ := visits.swept_by mem nothing
  have apart : ∀ j ∈ walked, j ∉ [k] := fun j on e => off (List.mem_singleton.1 e ▸ on)
  have away : k ∉ dropped := fun gone => off (past.swept.among.subset gone)
  refine ⟨first ++ dropped, swept.trans past.swept apart, fun j on => ?_⟩
  rcases List.mem_cons.1 on with rfl | on
  · exact ⟨v, judged, nothing, by simpa [away] using drains⟩
  · obtain ⟨v', judged', nothing', drains'⟩ := past.vain j on
    have other : k ≠ j := fun e => off (e ▸ on)
    have missed : j ∉ first := fun gone => apart j on (swept.among.subset gone)
    rw [verdictAt_congr visits.rules (visits.elsewhere other).1, ← others j on] at judged'
    exact ⟨v', judged', nothing', by simpa [missed] using drains'⟩

theorem Ended.congr {a : Outcome (BarrierError K) (Option M)} (same : ∀ j ∈ rest, asked' j = asked j)
    (ended : Ended clock b₁ b₂ asked rest a) : Ended clock b₁ b₂ asked' rest a := by
  cases ended with
  | through left => exact .through left
  | released visits judged => exact .released visits (same _ List.mem_cons_self ▸ judged)
  | failed visits judged => exact .failed visits (same _ List.mem_cons_self ▸ judged)

/-- A walk is past some of its keys, and then it ends. -/
theorem exists_walked (clock : Nat → Instant) {ks : List K} (nodup : ks.Nodup) {b : Barrier K M} (n : Nat)
    (tracked : ∀ j ∈ ks, j ∈ b.table.keys) :
    let visits := stops (onTime clock) ks b n
    ∃ b₁ asked walked rest dropped, ks = walked ++ rest ∧ (∀ k, ∃ n, asked k = clock n) ∧
      b.Past b₁ asked walked dropped ∧ Ended clock b₁ (b.arrive visits) asked rest (bring visits) := by
  induction ks generalizing b n with
  | nil => exact ⟨b, fun _ => clock 0, [], [], [], rfl, fun _ => ⟨0, rfl⟩, .start b _, .through rfl⟩
  | cons k rest ih =>
    obtain ⟨off, nodup'⟩ := List.nodup_cons.1 nodup
    obtain ⟨b', n', i, stop, visits⟩ := judged_stop clock b k n
    have sometime : ∀ k : K, ∃ n, (fun _ => clock i) k = clock n := fun _ => ⟨i, rfl⟩
    have later := ih nodup' n' (visits.ahead nodup tracked)
    simp only [stops, stop]
    generalize judged : b.verdictAt (clock i) k = a at visits
    have onward (v : Visit M) (is : a = .ok v) (nothing : ∀ m, v ≠ .released m) :
        ∃ b₁ asked walked rest' dropped, k :: rest = walked ++ rest' ∧ (∀ k, ∃ n, asked k = clock n) ∧
          b.Past b₁ asked walked dropped ∧ Ended clock b₁ (b'.arrive (stops (onTime clock) rest b' n')) asked rest'
            (bring (stops (onTime clock) rest b' n')) := by
      obtain ⟨b₁, asked, walked, rest', dropped, split, times, past, ended⟩ := later
      subst is
      have others : ∀ j ∈ rest, (if j = k then clock i else asked j) = asked j := fun j mem =>
        if_neg fun e : j = k => off (e ▸ mem)
      rw [split] at off others
      obtain ⟨dropped', past'⟩ := past.cons (tracked k List.mem_cons_self) visits nothing
        (by simpa using judged) (fun on => off (List.mem_append_left _ on))
        fun j on => others j (List.mem_append_left _ on)
      refine ⟨b₁, _, k :: walked, rest', dropped', by rw [split]; rfl, fun j => ?_, past',
        ended.congr fun j mem => others j (List.mem_append_right _ mem)⟩
      by_cases hj : j = k
      · exact ⟨i, if_pos hj⟩
      · obtain ⟨n, time⟩ := times j
        exact ⟨n, (if_neg hj).trans time⟩
    rcases a with f | (m | _ | _ | _)
    · exact ⟨b, _, [], k :: rest, [], rfl, sometime, .start b _, .failed visits judged⟩
    · exact ⟨b, _, [], k :: rest, [], rfl, sometime, .start b _, .released visits judged⟩
    all_goals exact onward _ rfl (by simp)

/-! ## a whole pull -/

omit [BEq M] in
/-- What a pull makes of a key that it walks past, by the group of this key alone. -/
inductive Passed (b b' : Barrier K M) (now : Instant) (k : K) : Prop where
  | stale (group : b.store.group k = none) (left : b'.store.group k = none)
    (entry : b'.table.current k = if b.table.policy = .validated then none else b.table.current k)
  | held {g} (group : b.store.group k = some g) (judged : b.rules.release g now = .ok false)
    (left : b'.store.group k = some g) (entry : b'.table.current k = b.table.current k)
  | drained {g} (group : b.store.group k = some g) (judged : b.rules.release g now = .ok true)
    (unmarked : g.unmarked = []) (left : b'.store.group k = none) (entry : b'.table.current k = none)

omit [BEq M] in
/-- What a pull makes of the key where it ends before it is through. -/
inductive EndsAt (b b' : Barrier K M) (now : Instant) (k : K) : Outcome (BarrierError K) (Option M) → Prop where
  | released {g m rest} (group : b.store.group k = some g) (judged : b.rules.release g now = .ok true)
    (unmarked : g.unmarked = m :: rest) (left : b'.store.group k = some (g.give b.rules.mode m rest))
    (entry : b'.table.current k = b.table.current k) : EndsAt b b' now k (.ok (some m))
  | failed {g f} (group : b.store.group k = some g) (judged : b.rules.release g now = .error f)
    (left : b'.store.group k = some g) (entry : b'.table.current k = b.table.current k) :
    EndsAt b b' now k (.error (f.map (.release k)))

omit [BEq M] in
/-- A key that a walk is past. -/
theorem Past.passed (past : b.Past b₁ asked walked dropped) (on : k ∈ walked)
    (left : b'.store.group k = b₁.store.group k) (entry : b'.table.current k = b₁.table.current k) :
    b.Passed b' (asked k) k := by
  obtain ⟨v, verdict, nothing, drains⟩ := past.vain k on
  rw [past.swept.group] at left
  rw [past.swept.current] at entry
  cases judged_of_verdictAt verdict with
  | released => exact absurd rfl (nothing _)
  | stale group =>
    have kept : k ∉ dropped := fun gone => by cases drains.1 gone
    rw [if_neg kept, group] at left
    exact .stale group left (by simpa [kept, on, group] using entry)
  | held group judged =>
    have kept : k ∉ dropped := fun gone => by cases drains.1 gone
    rw [if_neg kept, group] at left
    exact .held group judged left (by simpa [kept, group] using entry)
  | drained group judged unmarked =>
    have gone : k ∈ dropped := drains.2 rfl
    rw [if_pos gone] at left
    exact .drained group judged unmarked left (by simpa [gone] using entry)

omit [BEq M] in
/-- A key that a walk is not past is as it was. -/
theorem Past.ahead (past : b.Past b₁ asked walked dropped) (off : k ∉ walked) :
    b₁.store.group k = b.store.group k ∧ b₁.table.current k = b.table.current k := by
  have kept : k ∉ dropped := fun gone => off (past.swept.among.subset gone)
  rw [past.swept.group, past.swept.current]
  simp [kept, off]

/-- Where a walk ends, it leaves the other keys alone. -/
theorem Ended.elsewhere {a : Outcome (BarrierError K) (Option M)} (ended : Ended clock b₁ b₂ asked rest a)
    (other : k ∉ rest.head?) :
    b₂.store.group k = b₁.store.group k ∧ b₂.table.current k = b₁.table.current k := by
  cases ended with
  | through left => exact ⟨by rw [left], by rw [left]⟩
  | released visits | failed visits => exact visits.elsewhere fun e => other (by simp [e])

/-- Where a walk ends, it leaves its counts as they are but for what is handed out. -/
theorem Ended.stats {a : Outcome (BarrierError K) (Option M)} (ended : Ended clock b₁ b₂ asked rest a) :
    b₂.rules = b₁.rules ∧ b₂.table.policy = b₁.table.policy ∧
      b₂.stats = { b₁.stats with released := b₁.stats.released + UInt64.ofNat (brought a).length } := by
  cases ended with
  | through left =>
    subst left
    exact ⟨rfl, rfl, Stats.ext_counters rfl (UInt64.add_zero _).symm rfl rfl⟩
  | released visits =>
    refine ⟨visits.rules, visits.policy, ?_⟩
    cases visits with
    | released _ _ _ leaves => exact leaves.stats
  | failed visits =>
    refine ⟨visits.rules, visits.policy, ?_⟩
    cases visits with
    | failed _ leaves =>
      rw [leaves.stats]
      exact Stats.ext_counters rfl (UInt64.add_zero _).symm rfl rfl

/-- The key where a walk ends before it is through. -/
theorem Ended.at [ReflBEq M] {a : Outcome (BarrierError K) (Option M)} (past : b.Past b₁ asked walked dropped)
    (ended : Ended clock b₁ b₂ asked rest a) (first : k ∈ rest.head?) (off : k ∉ walked) (mem : k ∈ b.table.keys) :
    b.EndsAt b₂ (asked k) k a := by
  obtain ⟨group, entry⟩ := past.ahead off
  have mem₁ : k ∈ b₁.table.keys := by rwa [LockTable.mem_keys_iff, entry, ← LockTable.mem_keys_iff]
  cases ended with
  | through => cases first
  | @released _ _ m visits verdict =>
    obtain rfl := Option.some.inj first
    rw [verdictAt_congr past.swept.rules group] at verdict
    cases judged_of_verdictAt verdict with
    | released grouped judged unmarked =>
      cases visits with
      | released _ _ _ leaves =>
        refine .released grouped judged unmarked ?_ ?_
        · rw [leaves.store, GroupStore.group_handOut _ (group.trans grouped) unmarked, if_pos rfl, past.swept.rules]
        · rw [leaves.table, LockTable.current_touch_of_mem mem₁, entry]
  | @failed _ _ f visits verdict =>
    obtain rfl := Option.some.inj first
    rw [verdictAt_congr past.swept.rules group] at verdict
    cases judged_of_verdictAt verdict with
    | failed grouped judged =>
      cases visits with
      | failed _ leaves =>
        refine .failed grouped judged ?_ ?_
        · rw [leaves.store, group, grouped]
        · rw [leaves.table, LockTable.current_touch_of_mem mem₁, entry]

/-- **One pull.** Take any barrier, whatever its table and its store say about each other, and pull from it with nobody else
around, in any order of the keys. The pull walks past keys until none is left or one is ready, which means that its group
may release and has an unmarked message. A key that it walks past is treated by its own group as this is judged when the
pull gets there: without a group it is counted, and forgotten if the table checks tokens; a group that may not release stays
as it is; one that may and has nothing unmarked is dropped with its key and counted. Of the first key that is ready the pull
hands out the first unmarked message, which is marked or removed and no other; only a group that cannot be judged ends it
without an answer. All other keys, and all groups that are not tracked, are as they were. -/
theorem pull_takes_first_ready [ReflBEq M] (b : Barrier K M) (clock : Nat → Instant) (order : WalkOrder K) :
    let answer := (b.pullInTurn (onTime clock) order).1
    let b' := (b.pullInTurn (onTime clock) order).2
    ∃ (asked : K → Instant) (walked rest : List K),
      order.arrange b.pendingKeys = walked ++ rest ∧ (∀ k, ∃ n, asked k = clock n) ∧
      (∀ k ∈ walked, b.Passed b' (asked k) k) ∧
      (rest = [] → answer = .ok none) ∧ (∀ k ∈ rest.head?, b.EndsAt b' (asked k) k answer) ∧
      (∀ k, k ∉ walked → k ∉ rest.head? →
        b'.store.group k = b.store.group k ∧ b'.table.current k = b.table.current k) ∧
      (∀ m, answer = .ok (some m) → ∃ k ∈ b.pendingKeys, ∃ g rest, b.store.group k = some g ∧ g.unmarked = m :: rest) ∧
      b'.rules = b.rules ∧ b'.table.policy = b.table.policy ∧
      b'.stats = { b.stats with
        released := b.stats.released + UInt64.ofNat (brought answer).length
        groupsRemoved := b.stats.groupsRemoved +
          UInt64.ofNat (walked.countP fun k => (b.store.group k).isSome && (b'.store.group k).isNone)
        staleKeys := b.stats.staleKeys + UInt64.ofNat (walked.countP fun k => (b.store.group k).isNone) } := by
  intro answer b'
  have nodup := order.nodup_arrange b.table.keys_nodup
  obtain ⟨b₁, asked, walked, rest, dropped, split, times, past, ended⟩ :=
    exists_walked clock nodup 0 fun j => order.mem_arrange.1
  have eq : answer = bring (b.tour (onTime clock) order) ∧ b' = b.arrive (b.tour (onTime clock) order) := by
    simp only [answer, b', pullInTurn_eq, and_self]
  obtain ⟨answer_eq, b'_eq⟩ := eq
  change Ended clock b₁ (b.arrive (b.tour (onTime clock) order)) asked rest (bring (b.tour (onTime clock) order)) at ended
  rw [← answer_eq, ← b'_eq] at ended
  have apart : ∀ k ∈ walked, k ∉ rest := fun k on mem => by
    rw [split, List.nodup_append] at nodup
    exact nodup.2.2 k on k mem rfl
  have tracked : ∀ k ∈ rest, k ∈ b.table.keys := fun k mem => order.mem_arrange.1 (split ▸ List.mem_append_right _ mem)
  have endsAt : ∀ k ∈ rest.head?, b.EndsAt b' (asked k) k answer := fun k first =>
    have mem := List.mem_of_mem_head? first
    ended.at past first (fun on => apart k on mem) (tracked k mem)
  clear_value answer b'
  have passed : ∀ k ∈ walked, b.Passed b' (asked k) k := fun k on => by
    obtain ⟨left, entry⟩ := ended.elsewhere fun first => apart k on (List.mem_of_mem_head? first)
    exact past.passed on left entry
  obtain ⟨rules, policy, stats⟩ := ended.stats
  refine ⟨asked, walked, rest, split, times, passed, fun none => ?_, endsAt, fun k off other => ?_, fun m gives => ?_,
    rules.trans past.swept.rules, policy.trans past.swept.policy, ?_⟩
  · subst none
    cases ended with
    | through => rfl
  · obtain ⟨group, entry⟩ := past.ahead off
    obtain ⟨group', entry'⟩ := ended.elsewhere other
    exact ⟨group'.trans group, entry'.trans entry⟩
  · subst gives
    cases ended with
    | @released k _ _ visits verdict =>
      cases endsAt k rfl with
      | released group _ unmarked => exact ⟨k, tracked k List.mem_cons_self, _, _, group, unmarked⟩
  · have removed : dropped.length = walked.countP fun k => (b.store.group k).isSome && (b'.store.group k).isNone := by
      rw [split] at nodup
      rw [past.swept.length_dropped (List.nodup_append.1 nodup).1]
      refine List.countP_congr fun k on => ?_
      rw [(ended.elsewhere fun first => apart k on (List.mem_of_mem_head? first)).1]
    rw [stats, past.swept.stats, removed]

/-- A pull past a key without a group, a group with nothing left and a group that is held back. The group of the key 5, which
is not tracked, is never asked for. -/
theorem pull_takes_first_ready_of_five_keys :
    let group (k : Nat) (unmarked marked : List Nat) : Nat × Group Nat Nat :=
      (k, { key := k, unmarked := unmarked, marked := marked, createdAt := 0, updatedAt := 0 })
    let b : Barrier Nat Nat :=
      { rules := { correlate := fun m => .ok (m % 10), release := .when fun g => g.key != 2 }
        table := { policy := .validated, entries := ⟨[(0, 0), (1, 1), (2, 2), (3, 3), (4, 4)], by decide⟩
                   tokens := List.replicate 5 {} }
        shared := { store := ⟨0, ⟨[group 1 [] [11], group 2 [12] [], group 3 [13, 23] [3], group 4 [14] [], group 5 [15] []],
          by decide⟩, 8⟩ } }
    let pulled := b.pullInTurn (onTime fun n => n) .asListed
    pulled.1 = .ok (some 13) ∧ pulled.2.pendingKeys = [2, 3, 4] ∧ pulled.2.stats = ⟨0, 1, 1, 1⟩ ∧
      pulled.2.store.groups.keys = [2, 3, 4, 5] ∧ pulled.2.store.group 5 = b.store.group 5 := by
  intro group b pulled
  obtain ⟨asked, walked, rest, split, -, -, -, -, others, -⟩ := pull_takes_first_ready b (fun n => n) .asListed
  have untracked : 5 ∉ walked ++ rest := by
    rw [← split]
    decide
  have apart := mt (List.mem_append_left rest) untracked
  have ahead : 5 ∉ rest.head? := fun first => untracked (List.mem_append_right _ (List.mem_of_mem_head? first))
  exact ⟨rfl, rfl, rfl, rfl, (others 5 apart ahead).1⟩

end Barrier

end CorrelationBarrier
