import CorrelationBarrier.Proofs.Barrier.Serving

/-!
# Draining under a threshold

A barrier lets a group go once it has `n` messages, and is drained after some messages came in. A group that marks what it
gives keeps its size, so all of it comes out or nothing does. One that loses what it gives stops below the threshold.

* `Group.settle_mark_minSize`, `Group.settle_remove_minSize` — what a threshold makes of a group;
* `Barrier.UnderThreshold` — how a drain may end for a key: it is `Gone`, or it `Keeps` some messages;
* `Barrier.Filled` — a barrier into which messages came, and nothing else happened; `Filled.accept`, `Filled.waiting_le`,
  and `Filled.underThreshold`;
* `threshold_outcome` — the result for whole drains.
-/

namespace CorrelationBarrier

variable {K M : Type}

/-! ## what a threshold makes of a group -/

/-- How many of `c` messages of a key a threshold of `n` lets out. -/
def ReleaseMode.yield (mode : ReleaseMode) (n c : Nat) : Nat :=
  match mode with
  | .mark => if n ≤ c then c else 0
  | .remove => c - min c (n - 1)

theorem ReleaseMode.yield_zero (mode : ReleaseMode) (n : Nat) : mode.yield n 0 = 0 := by
  cases mode <;> simp [yield]

namespace Group

variable {n : Nat} {g : Group K M}

/-- Marking keeps the size: a group with enough messages has enough to the end. -/
theorem settle_mark_minSize (enough : n ≤ g.size) :
    g.settle .mark (fun g => n ≤ g.size) = ⟨g.unmarked, none, false⟩ := by
  induction h : g.unmarked generalizing g with
  | nil => exact settle_of_drained (decide_eq_true enough) h
  | cons m rest ih =>
    have same : (g.give .mark m rest).size = g.size := by
      simp only [size, give, h, List.length_append, List.length_cons, List.length_nil]
      omega
    rw [settle_of_released (decide_eq_true enough) h, ih (same ▸ enough) rfl]
    rfl

/-- Removing makes the group smaller: of `c` messages the first `c - min c (n - 1)` come out. -/
theorem settle_remove_minSize (positive : 0 < n) (bare : g.marked = []) :
    g.settle .remove (fun g => n ≤ g.size) = ⟨g.unmarked.take (g.unmarked.length - min g.unmarked.length (n - 1)),
      some { g with unmarked := g.unmarked.drop (g.unmarked.length - min g.unmarked.length (n - 1)) }, true⟩ := by
  have size (g : Group K M) (bare : g.marked = []) : g.size = g.unmarked.length := by simp [Group.size, bare]
  induction h : g.unmarked generalizing g with
  | nil =>
    have few : ¬ n ≤ g.size := by
      rw [size g bare, h, List.length_nil]
      omega
    rw [settle_of_held (decide_eq_false few), List.take_nil, List.drop_nil, ← h]
  | cons m rest ih =>
    by_cases enough : n ≤ g.size
    · have first : (m :: rest).length - min (m :: rest).length (n - 1) = rest.length - min rest.length (n - 1) + 1 := by
        rw [size g bare, h, List.length_cons] at enough
        rw [List.length_cons]
        omega
      rw [settle_of_released (decide_eq_true enough) h, first, List.take_succ_cons, List.drop_succ_cons,
        ih (g := g.give .remove m rest) bare rfl]
      rfl
    · have none : (m :: rest).length - min (m :: rest).length (n - 1) = 0 := by
        rw [size g bare, h] at enough
        omega
      rw [settle_of_held (decide_eq_false enough), none, List.take_zero, List.drop_zero, ← h]

theorem settle_remove_zero : g.settle .remove (fun g => 0 ≤ g.size) = ⟨g.unmarked, none, false⟩ := by
  induction h : g.unmarked generalizing g with
  | nil => exact settle_of_drained (decide_eq_true (Nat.zero_le _)) h
  | cons m rest ih =>
    rw [settle_of_released (decide_eq_true (Nat.zero_le _)) h, ih (g := g.give .remove m rest) rfl]
    rfl

end Group

variable [DecidableEq K]

namespace Barrier

/-! ## keys after a drain -/

/-- Nothing is left of a key. -/
def Gone (b : Barrier K M) (k : K) : Prop := b.store.group k = none ∧ k ∉ b.pendingKeys

/-- A key is tracked, and its group holds just the given messages, none of them marked. -/
def Keeps (b : Barrier K M) (k : K) (ms : List M) : Prop :=
  k ∈ b.pendingKeys ∧ ∃ g, b.store.group k = some g ∧ g.unmarked = ms ∧ g.marked = []

/-- `b.UnderThreshold n k mode l out`: of the messages `l` that came in under `k` a drain under a threshold of `n` has handed
out `out`, in this order, and leaves `b`. -/
inductive UnderThreshold (b : Barrier K M) (n : Nat) (k : K) : ReleaseMode → List M → List M → Prop where
  | unused {mode} (gone : b.Gone k) : UnderThreshold b n k mode [] []
  /-- All that is marked counts, so a key that has enough messages gives all of them. -/
  | whole {l} (enough : n ≤ l.length) (gone : b.Gone k) : UnderThreshold b n k .mark l l
  | held {l} (some : l ≠ []) (few : l.length < n) (keeps : b.Keeps k l) : UnderThreshold b n k .mark l []
  | emptied {l} (zero : n = 0) (gone : b.Gone k) : UnderThreshold b n k .remove l l
  /-- What is removed does not count: the last `n - 1` messages stay, or as many as there are. -/
  | reduced {l} (some : l ≠ []) (positive : 0 < n) (keeps : b.Keeps k (l.drop (l.length - min l.length (n - 1)))) :
    UnderThreshold b n k .remove l (l.take (l.length - min l.length (n - 1)))

theorem UnderThreshold.length_eq {b : Barrier K M} {n : Nat} {k : K} {mode : ReleaseMode} {l out : List M}
    (ends : b.UnderThreshold n k mode l out) : out.length = mode.yield n l.length := by
  cases ends with
  | unused => exact (mode.yield_zero n).symm
  | whole enough => exact (if_pos enough).symm
  | held _ few => exact (if_neg (Nat.not_le.2 few)).symm
  | emptied zero =>
    simp only [ReleaseMode.yield, zero]
    omega
  | reduced =>
    rw [List.length_take]
    exact Nat.min_eq_left (Nat.sub_le ..)

section Fates

variable {p : Group K M → Bool} {b b' : Barrier K M} {out : List (K × M)} {k : K} {ms : List M}

theorem Gone.fate (gone : b.Gone k) : b.fate p k = ⟨[], none, false⟩ := by
  have off : k ∉ b.table.keys := gone.2
  rw [Barrier.fate, if_neg off, gone.1]

theorem gone_of_fate (turned : b.Turned p b' out) (settled : b'.SettledAt p k) (fate : b.fate p k = ⟨ms, none, false⟩) :
    underKey k out = ms ∧ b'.Gone k := by
  obtain ⟨messages, group, tracked⟩ := Outlook.mk.inj ((turned.fate_of_settled settled).symm.trans fate)
  exact ⟨messages, group, of_decide_eq_false tracked⟩

theorem keeps_of_fate {g : Group K M} (turned : b.Turned p b' out) (settled : b'.SettledAt p k)
    (fate : b.fate p k = ⟨ms, some g, true⟩) (bare : g.marked = []) :
    underKey k out = ms ∧ b'.Keeps k g.unmarked := by
  obtain ⟨messages, group, tracked⟩ := Outlook.mk.inj ((turned.fate_of_settled settled).symm.trans fate)
  exact ⟨messages, of_decide_eq_true tracked, g, group, rfl, bare⟩

end Fates

/-! ## messages that come in -/

/-- The messages `ms` came into a barrier without bound, and nothing else happened. -/
structure Filled (b : Barrier K M) (ms : List M) : Prop where
  unbounded : b.store.capacity = 0
  gone : ∀ k, ms.filter (b.rules.keyed k) = [] → b.Gone k
  keeps : ∀ k, ms.filter (b.rules.keyed k) ≠ [] → b.Keeps k (ms.filter (b.rules.keyed k))

namespace Filled

variable {b b' : Barrier K M} {ms : List M} {m : M} {k : K}

theorem new (rules : Rules K M) (policy : TokenPolicy) : (Barrier.new rules policy : Barrier K M).Filled [] where
  unbounded := rfl
  gone _ _ := ⟨rfl, List.not_mem_nil⟩
  keeps _ h := absurd rfl h

theorem accept [BEq M] {a : Answer K M} (filled : b.Filled ms) (responds : b.Responds (.accept m) a b') :
    b'.Filled (ms ++ [m]) ∧ ∀ k, acceptedUnder b.rules k [(.accept m, a)] = [m].filter (b.rules.keyed k) := by
  cases responds with
  | refused _ add => exact absurd add (GroupStore.add_ne_error filled.unbounded)
  | unkeyed key =>
    have nowhere (k : K) : [m].filter (b.rules.keyed k) = [] := Rules.filter_keyed_none key k
    refine ⟨⟨filled.unbounded, fun k h => filled.gone k ?_, fun k h => ?_⟩, fun k => (nowhere k).symm⟩
    · rwa [List.filter_append, nowhere, List.append_nil] at h
    · rw [List.filter_append, nowhere, List.append_nil] at h ⊢
      exact filled.keeps k h
  | @accepted _ k now store _ key add leaves =>
    refine ⟨?_, fun _ => rfl⟩
    have here : [m].filter (b.rules.keyed k) = [m] := by rw [Rules.filter_keyed_one key, if_pos rfl]
    have elsewhere {j : K} (other : k ≠ j) : [m].filter (b.rules.keyed j) = [] := by
      rw [Rules.filter_keyed_one key, if_neg other]
    have group (j : K) : b'.store.group j = if k = j then
        some (((b.store.group k).getD { key := k, createdAt := now, updatedAt := now }).push now m)
        else b.store.group j := by
      rw [leaves.store]
      exact GroupStore.group_add add j
    have tracked (j : K) : j ∈ b'.pendingKeys ↔ k = j ∨ j ∈ b.pendingKeys := by
      rw [pendingKeys, leaves.table]
      exact LockTable.mem_keys_touch
    refine ⟨by rw [leaves.store, GroupStore.capacity_add add, filled.unbounded], fun j h => ?_, fun j h => ?_⟩
    · rw [leaves.rules, List.filter_append] at h
      by_cases hk : k = j
      · subst hk
        rw [here] at h
        exact absurd h (List.append_ne_nil_of_right_ne_nil _ (List.cons_ne_nil _ _))
      · rw [elsewhere hk, List.append_nil] at h
        obtain ⟨none, off⟩ := filled.gone j h
        exact ⟨by rw [group, if_neg hk, none], by rw [tracked]; exact fun h => h.elim hk off⟩
    · rw [leaves.rules, List.filter_append] at h ⊢
      by_cases hk : k = j
      · subst hk
        rw [here]
        refine ⟨(tracked k).2 (.inl rfl), _, by rw [group, if_pos rfl], ?_⟩
        by_cases before : ms.filter (b.rules.keyed k) = []
        · rw [(filled.gone k before).1, before]
          exact ⟨rfl, rfl⟩
        · obtain ⟨-, g, some, unmarked, bare⟩ := filled.keeps k before
          rw [some, ← unmarked]
          exact ⟨rfl, bare⟩
      · rw [elsewhere hk, List.append_nil] at h ⊢
        obtain ⟨mem, g, some, content⟩ := filled.keeps j h
        exact ⟨(tracked j).2 (.inr mem), g, by rw [group, if_neg hk, some], content⟩

theorem accepts [BEq M] (filled : b.Filled ms) (arrivals : List ((Nat → Instant) × M)) :
    (b.after (arrivals.map fun a => (a.1, .accept a.2))).Filled (ms ++ arrivals.map Prod.snd) ∧
      ∀ k, acceptedUnder b.rules k (b.record (arrivals.map fun a => (a.1, .accept a.2))) =
        (arrivals.map Prod.snd).filter (b.rules.keyed k) := by
  induction arrivals generalizing b ms with
  | nil => exact ⟨(List.append_nil ms).symm ▸ filled, fun _ => rfl⟩
  | cons a rest ih =>
    have responds := b.responds (a.1, .accept a.2)
    obtain ⟨filled, one⟩ := filled.accept responds
    obtain ⟨filled, more⟩ := ih filled
    rw [List.append_assoc] at filled
    refine ⟨filled, fun k => ?_⟩
    have split : b.record ((a :: rest).map fun a => (a.1, .accept a.2)) =
        [(.accept a.2, b.answer (a.1, .accept a.2))] ++ (b.after [(a.1, .accept a.2)]).record _ := rfl
    rw [split, acceptedUnder_append, one, ← responds.rules, more, ← List.filter_append]
    rfl

theorem tracked (filled : b.Filled ms) (k : K) : k ∈ b.pendingKeys ↔ ms.filter (b.rules.keyed k) ≠ [] :=
  ⟨fun mem none => (filled.gone k none).2 mem, fun some => (filled.keeps k some).1⟩

/-- The messages of all keys are no more than all messages. -/
theorem waiting_le (filled : b.Filled ms) : b.waiting ≤ ms.length := by
  have under (k : K) (mem : k ∈ b.table.keys) : (b.store.unmarked k).length =
      (underKey k (ms.filterMap b.rules.filed?)).length := by
    obtain ⟨-, g, group, unmarked, -⟩ := filled.keeps k ((filled.tracked k).1 mem)
    rw [GroupStore.unmarked_of_group group, unmarked, filter_keyed]
  have keys (km : K × M) (mem : km ∈ ms.filterMap b.rules.filed?) : km.1 ∈ b.table.keys.toFinset := by
    refine List.mem_toFinset.2 ((filled.tracked km.1).2 ?_)
    rw [filter_keyed]
    exact underKey_ne_nil mem
  calc b.waiting = ∑ k ∈ b.table.keys.toFinset, (b.store.unmarked k).length :=
        (List.sum_toFinset _ b.table.keys_nodup).symm
    _ = ∑ k ∈ b.table.keys.toFinset, (underKey k (ms.filterMap b.rules.filed?)).length :=
        Finset.sum_congr rfl fun k mem => under k (List.mem_toFinset.1 mem)
    _ = (ms.filterMap b.rules.filed?).length := sum_length_underKey _ _ keys
    _ ≤ ms.length := List.length_filterMap_le ..

/-- What a drain that leaves all keys settled makes of a key. -/
theorem underThreshold {n : Nat} {out : List (K × M)} (filled : b.Filled ms)
    (turned : b.Turned (fun g => n ≤ g.size) b' out) (settled : ∀ k, b'.SettledAt (fun g => n ≤ g.size) k) (k : K) :
    b'.UnderThreshold n k b.rules.mode (ms.filter (b.rules.keyed k)) (underKey k out) := by
  by_cases empty : ms.filter (b.rules.keyed k) = []
  · obtain ⟨none, gone⟩ := gone_of_fate turned (settled k) (filled.gone k empty).fate
    rw [none, empty]
    exact .unused gone
  · obtain ⟨mem, g, group, unmarked, bare⟩ := filled.keeps k empty
    have mem : k ∈ b.table.keys := mem
    have fate : b.fate (fun g => n ≤ g.size) k = g.settle b.rules.mode fun g => n ≤ g.size := by
      rw [Barrier.fate, if_pos mem, group]
      rfl
    have size : g.size = g.unmarked.length := by rw [Group.size, bare]; rfl
    rw [← unmarked] at empty ⊢
    cases mode : b.rules.mode with
    | mark =>
      rw [mode] at fate
      by_cases enough : n ≤ g.size
      · rw [Group.settle_mark_minSize enough] at fate
        obtain ⟨whole, gone⟩ := gone_of_fate turned (settled k) fate
        rw [whole]
        exact .whole (size ▸ enough) gone
      · rw [Group.settle_of_held (decide_eq_false enough)] at fate
        obtain ⟨none, keeps⟩ := keeps_of_fate turned (settled k) fate bare
        rw [none]
        exact .held empty (size ▸ Nat.not_le.1 enough) keeps
    | remove =>
      rw [mode] at fate
      rcases Nat.eq_zero_or_pos n with rfl | positive
      · rw [Group.settle_remove_zero] at fate
        obtain ⟨whole, gone⟩ := gone_of_fate turned (settled k) fate
        rw [whole]
        exact .emptied rfl gone
      · rw [Group.settle_remove_minSize positive bare] at fate
        obtain ⟨first, keeps⟩ := keeps_of_fate turned (settled k) fate bare
        rw [first]
        exact .reduced empty positive keeps

end Filled

/-! ## drains -/

/-- **Threshold release.** Messages come into an empty barrier without bound that lets a group go at `n` messages, and then
pulls follow, each in an order of its own. With more pulls than messages came in, one of them brings nothing. Once one has,
every key has ended as `UnderThreshold` says. If the barrier marks what it gives, a key with `n` messages or more has given
all of them in order and is gone, and one with fewer has given none and keeps them. If the barrier removes what it gives, a
key with messages keeps the last `n - 1` of them, or as many as it had, and has given those before in order; but for
`n = 0` all keys are gone. The messages that came out are as many as the keys have given together. -/
theorem threshold_outcome [BEq M] [ReflBEq M] (correlate : Correlation K M) (n : Nat) (mode : ReleaseMode)
    (policy : TokenPolicy) (arrivals : List ((Nat → Instant) × M)) (choices : List (Instant × WalkOrder K)) :
    let rules : Rules K M := ⟨correlate, .minSize n, mode⟩
    let start : Barrier K M := .new rules policy
    let ops : List (Served K M) := arrivals.map fun a => (a.1, .accept a.2)
    let sent k := (arrivals.map Prod.snd).filter (rules.keyed k)
    let drained := (start.after ops).drain (choices.map fun c => ({ now := c.1 }, c.2))
    (∀ k, acceptedUnder rules k (start.record ops) = sent k) ∧
    (arrivals.length < choices.length → drained.2.1 = .empty) ∧
    (drained.2.1 = .empty →
      (∀ k, drained.2.2.UnderThreshold n k mode (sent k) (drained.1.filter (rules.keyed k))) ∧
      ∀ S : Finset K, (∀ k, sent k ≠ [] → k ∈ S) → drained.1.length = ∑ k ∈ S, mode.yield n (sent k).length) := by
  intro rules start ops sent drained
  obtain ⟨filled, accepted⟩ := (Filled.new rules policy).accepts arrivals
  have filled : (start.after ops).Filled (arrivals.map Prod.snd) := filled
  have same : (start.after ops).rules = rules := rules_after ..
  have quiet : ∀ c ∈ choices.map fun c => (({ now := c.1 } : Surroundings), c.2), ∀ method, c.1.fault method = none := by
    intro c mem method
    obtain ⟨c', -, rfl⟩ := List.mem_map.1 mem
    rfl
  have rule : (start.after ops).rules.release = .when fun g => n ≤ g.size := by rw [same]; rfl
  obtain ⟨⟨kms, gives, turned⟩, settles, ends⟩ := drain_turns _ (start.after ops) quiet rule
  refine ⟨accepted, fun enough => ends ?_, fun last => ?_⟩
  · have := filled.waiting_le
    rw [List.length_map] at this ⊢
    omega
  · have kept : (start.after ops).store.WellKept (start.after ops).rules.correlate := by
      rw [same]
      exact wellKept_after (b := start) (wellKept_new rules policy 0) ops
    obtain ⟨kms', given, gives'⟩ :=
      drain_gives (choices.map fun c => (({ now := c.1 } : Surroundings), c.2)) (start.after ops) kept
    -- both lists are what the journal has more after the drain
    have one : kms' = kms := List.append_cancel_left (given.handed.symm.trans turned.handed)
    subst one
    have under (k : K) : drained.1.filter (rules.keyed k) = underKey k kms' := by
      rw [← given.released k, ← gives', same]
    have each (k : K) : drained.2.2.UnderThreshold n k mode (sent k) (drained.1.filter (rules.keyed k)) := by
      have each := filled.underThreshold turned (settles last) k
      rw [same] at each
      rw [under]
      exact each
    refine ⟨each, fun S all => ?_⟩
    have keys (km : K × M) (mem : km ∈ kms') : km.1 ∈ S := by
      refine all km.1 fun none => underKey_ne_nil mem ?_
      have length := (each km.1).length_eq
      rw [none, under] at length
      exact List.length_eq_zero_iff.1 (length.trans (mode.yield_zero n))
    calc drained.1.length = kms'.length := by rw [gives', List.length_map]
      _ = ∑ k ∈ S, (underKey k kms').length := (sum_length_underKey S kms' keys).symm
      _ = ∑ k ∈ S, mode.yield n (sent k).length := Finset.sum_congr rfl fun k _ => by rw [← under, (each k).length_eq]

/-- Of three messages under one key and one under another, a threshold of two that removes leaves one of each. -/
theorem threshold_outcome_of_four_messages :
    let rules : Rules Nat Nat := ⟨fun m => .ok (m % 2), .minSize 2, .remove⟩
    let ops : List (Served Nat Nat) :=
      [(fun n => n, 1), (fun n => n, 2), (fun n => n, 3), (fun n => n, 5)].map fun a => (a.1, .accept a.2)
    let drained := ((new rules).after ops).drain ((List.replicate 5 (7, .asListed)).map fun c => ({ now := c.1 }, c.2))
    drained.2.1 = .empty ∧ drained.1 = [1, 3] ∧ drained.1.length = ReleaseMode.remove.yield 2 1 + ReleaseMode.remove.yield 2 3 ∧
      drained.2.2.UnderThreshold 2 1 .remove [1, 3, 5] [1, 3] ∧ drained.2.2.UnderThreshold 2 0 .remove [2] [] := by
  have drains := threshold_outcome (fun m : Nat => .ok (m % 2)) 2 .remove .validated
    [(fun n => n, 1), (fun n => n, 2), (fun n => n, 3), (fun n => n, 5)] (List.replicate 5 (7, .asListed))
  dsimp only at drains ⊢
  obtain ⟨-, ends, outcome⟩ := drains
  have last := ends (by decide)
  obtain ⟨each, -⟩ := outcome last
  exact ⟨last, by decide, by decide, each 1, each 0⟩

end Barrier

end CorrelationBarrier
