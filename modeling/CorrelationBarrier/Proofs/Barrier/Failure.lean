import CorrelationBarrier.Proofs.Barrier.Draining

/-!
# Pulls that fail

A pull that fails loses nothing, whatever it has done before on its way, and can be made again.

* `Barrier.Swept` — what a walk has changed that has brought nothing so far: groups with nothing left are dropped, keys
  without a group are counted, and forgotten if the table checks tokens;
* `Walks.swept` — a walk that fails has swept the keys before the one where it fails, and left this one as it was;
* `Barrier.withRule` — a barrier with another release rule; what visits have made of it does not depend on the rule;
* `failed_pull_loses_nothing` — the result for pulls, and for drains after the cause is gone.
-/

namespace CorrelationBarrier

variable {K M : Type} [DecidableEq K]

namespace Barrier

/-- What a walk along the keys `walked` has changed that has brought nothing: the groups of the keys `dropped` are gone, in
this order. -/
structure Swept (b b' : Barrier K M) (walked dropped : List K) : Prop where
  rules : b'.rules = b.rules
  policy : b'.table.policy = b.table.policy
  among : dropped.Sublist walked
  /-- Only groups that may release and have nothing unmarked are dropped. -/
  drained : ∀ k ∈ dropped, ∃ g now, b.store.group k = some g ∧ g.unmarked = [] ∧ b.rules.release g now = .ok true
  store : b'.store = dropped.foldl .dropGroup b.store
  /-- Keys are forgotten with their groups; those without a group only if the table checks tokens. -/
  current : ∀ k, b'.table.current k =
    if k ∈ dropped ∨ b.table.policy = .validated ∧ k ∈ walked ∧ b.store.group k = none then none else b.table.current k
  stats : b'.stats = { b.stats with
    groupsRemoved := b.stats.groupsRemoved + UInt64.ofNat dropped.length
    staleKeys := b.stats.staleKeys + UInt64.ofNat (walked.countP fun k => (b.store.group k).isNone) }
  handed : b'.handed = b.handed
  /-- No token is made, none stays held, and only those of forgotten keys are retired. -/
  made : b'.table.tokens.length = b.table.tokens.length
  held : ∀ i, (b'.table.token i).held = true → (b.table.token i).held = true
  retired : ∀ i, (b'.table.token i).retired = true → (b.table.token i).retired = true ∨
    ∃ k ∈ walked, b.table.current k = some i ∧ b'.table.current k = none

variable {envs : Nat → Surroundings} {b b' b'' : Barrier K M} {k : K} {walked dropped : List K}

namespace Swept

/-- Dropping groups changes no other. -/
theorem group_foldl_dropGroup (dropped : List K) (s : GroupStore K M) (j : K) :
    (dropped.foldl .dropGroup s).group j = if j ∈ dropped then none else s.group j := by
  induction dropped generalizing s with
  | nil => simp
  | cons k rest ih =>
    rw [List.foldl_cons, ih, GroupStore.group_dropGroup]
    by_cases hj : k = j
    · simp [hj]
    · have other : j ≠ k := fun e => hj e.symm
      simp [hj, other]

theorem group (swept : b.Swept b' walked dropped) (j : K) :
    b'.store.group j = if j ∈ dropped then none else b.store.group j := by
  rw [swept.store, group_foldl_dropGroup]

/-- One walk after another, along other keys. -/
theorem trans {walked' dropped' : List K} (swept : b.Swept b' walked dropped) (swept' : b'.Swept b'' walked' dropped')
    (others : ∀ j ∈ walked', j ∉ walked) : b.Swept b'' (walked ++ walked') (dropped ++ dropped') where
  rules := swept'.rules.trans swept.rules
  policy := swept'.policy.trans swept.policy
  among := swept.among.append swept'.among
  drained j mem := by
    rcases List.mem_append.1 mem with mem | mem
    · exact swept.drained j mem
    · obtain ⟨g, now, group, unmarked, judged⟩ := swept'.drained j mem
      rw [swept.group, if_neg fun gone => others j (swept'.among.subset mem) (swept.among.subset gone)] at group
      rw [swept.rules] at judged
      exact ⟨g, now, group, unmarked, judged⟩
  store := by rw [swept'.store, swept.store, List.foldl_append]
  current j := by
    rw [swept'.current, swept.current, swept.policy, swept.group]
    by_cases gone : j ∈ dropped
    · simp [gone]
    · simp only [gone, if_false, false_or, List.mem_append]
      by_cases forgotten : b.table.policy = .validated ∧ b.store.group j = none
      · by_cases on : j ∈ walked <;> simp [forgotten, on]
      · grind
  stats := by
    have stale : walked'.countP (fun k => (b'.store.group k).isNone) =
        walked'.countP fun k => (b.store.group k).isNone := by
      refine List.countP_congr fun j mem => ?_
      rw [swept.group, if_neg fun gone => others j mem (swept.among.subset gone)]
    rw [swept'.stats, swept.stats]
    refine Stats.ext_counters rfl rfl ?_ ?_
    · show b.stats.groupsRemoved + _ + _ = b.stats.groupsRemoved + _
      rw [List.length_append, UInt64.ofNat_add, UInt64.add_assoc]
    · show b.stats.staleKeys + _ + _ = b.stats.staleKeys + _
      rw [List.countP_append, stale, UInt64.ofNat_add, UInt64.add_assoc]
  handed := swept'.handed.trans swept.handed
  made := swept'.made.trans swept.made
  held i h := swept.held i (swept'.held i h)
  retired i h := by
    rcases swept'.retired i h with h | ⟨k, on, token, gone⟩
    · rcases swept.retired i h with h | ⟨k, on, token, gone⟩
      · exact .inl h
      · refine .inr ⟨k, List.mem_append_left _ on, token, ?_⟩
        rw [swept'.current, gone, ite_self]
    · refine .inr ⟨k, List.mem_append_right _ on, ?_, gone⟩
      rw [swept.current] at token
      split at token
      · cases token
      · exact token

variable {store : GroupStore K M} {stats : Stats} {events : List (Event K M)}

/-- A visit that keeps its key, counted as a visit to the keys `walked`. -/
theorem of_touch (mem : k ∈ b.table.keys) (leaves : b.Leaves b' (b.table.touch k) b.store stats events)
    (silent : events.filterMap (·.released?) = [])
    (kept : ∀ j ∈ walked, b.table.policy = .validated → b.store.group j ≠ none)
    (counts : stats = { b.stats with
      staleKeys := b.stats.staleKeys + UInt64.ofNat (walked.countP fun k => (b.store.group k).isNone) }) :
    b.Swept b' walked [] where
  rules := leaves.rules
  policy := by rw [leaves.table, LockTable.policy_touch]
  among := List.nil_sublist _
  drained := nofun
  store := leaves.store
  current j := by
    have stays : ¬ (j ∈ [] ∨ b.table.policy = .validated ∧ j ∈ walked ∧ b.store.group j = none) := by
      rintro (h | ⟨validated, on, group⟩)
      · cases h
      · exact kept j on validated group
    rw [leaves.table, LockTable.current_touch_of_mem mem, if_neg stays]
  stats := by
    rw [leaves.stats, counts]
    exact Stats.ext_counters rfl rfl (UInt64.add_zero _).symm rfl
  handed := by rw [leaves.handed, silent, List.append_nil]
  made := by rw [leaves.table, LockTable.length_touch mem]
  held i h := by
    rw [leaves.table] at h
    exact LockTable.held_touch h
  retired i h := by
    rw [leaves.table, LockTable.retired_touch] at h
    exact .inl h

/-- A visit that forgets its key. -/
theorem of_expel (mem : k ∈ b.table.keys)
    (leaves : b.Leaves b' (b.table.expel k) (dropped.foldl .dropGroup b.store) stats events)
    (silent : events.filterMap (·.released?) = []) (among : dropped.Sublist [k])
    (drained : ∀ k ∈ dropped, ∃ g now, b.store.group k = some g ∧ g.unmarked = [] ∧ b.rules.release g now = .ok true)
    (gone : k ∈ dropped ∨ b.table.policy = .validated ∧ b.store.group k = none)
    (counts : stats = { b.stats with
      groupsRemoved := b.stats.groupsRemoved + UInt64.ofNat dropped.length
      staleKeys := b.stats.staleKeys + UInt64.ofNat ([k].countP fun k => (b.store.group k).isNone) }) :
    b.Swept b' [k] dropped where
  rules := leaves.rules
  policy := by rw [leaves.table, LockTable.policy_expel]
  among := among
  drained := drained
  store := leaves.store
  current j := by
    rw [leaves.table, LockTable.current_expel]
    by_cases hj : k = j
    · subst hj
      rcases gone with gone | ⟨validated, group⟩
      · simp [gone]
      · simp [validated, group]
    · have other : j ∉ [k] := by simpa using fun e : j = k => hj e.symm
      have stays : ¬ (j ∈ dropped ∨ b.table.policy = .validated ∧ j ∈ [k] ∧ b.store.group j = none) := by
        rintro (h | ⟨-, on, -⟩)
        · exact other (among.subset h)
        · exact other on
      rw [if_neg hj, if_neg stays]
  stats := by rw [leaves.stats, counts]
  handed := by rw [leaves.handed, silent, List.append_nil]
  made := by rw [leaves.table, LockTable.length_expel mem]
  held i h := by
    rw [leaves.table] at h
    exact LockTable.held_expel h
  retired i h := by
    rw [leaves.table] at h
    rcases LockTable.retired_expel h with h | rfl
    · exact .inl h
    · refine .inr ⟨k, List.mem_singleton_self k, ?_, ?_⟩
      · rw [← LockTable.current_touch, LockTable.current_touch_of_mem mem]
      · rw [leaves.table, LockTable.current_expel, if_pos rfl]

end Swept

/-! ## walks that fail -/

variable [BEq M] {f : Failure (BarrierError K)}

/-- A visit in vain sweeps its key. -/
theorem Visits.swept {v : Visit M} (mem : k ∈ b.table.keys) (visits : b.Visits envs k (.ok v) b')
    (nothing : ∀ m, v ≠ .released m) : ∃ dropped, b.Swept b' [k] dropped := by
  cases visits with
  | released => exact absurd rfl (nothing _)
  | held group judged leaves =>
    refine ⟨[], .of_touch mem leaves rfl (fun j on _ => ?_) ?_⟩
    · rw [List.mem_singleton.1 on, group]
      exact nofun
    · simp [group]
  | missed tolerant group leaves =>
    refine ⟨[], .of_touch mem leaves rfl (fun j on validated => ?_) ?_⟩
    · rw [tolerant] at validated
      cases validated
    · simp [group, Stats.bump]
  | drained group judged unmarked leaves =>
    refine ⟨[k], .of_expel mem leaves rfl (.refl _) (fun j on => ?_) (.inl (List.mem_singleton_self k)) ?_⟩
    · rw [List.mem_singleton.1 on]
      exact ⟨_, _, group, unmarked, judged⟩
    · simp [group, Stats.bump]
  | forgotten validated group leaves =>
    refine ⟨[], .of_expel mem leaves rfl (List.nil_sublist _) nofun (.inr ⟨validated, group⟩) ?_⟩
    simp [group, Stats.bump]

/-- A visit that fails changes nothing. -/
theorem Visits.swept_of_failed (mem : k ∈ b.table.keys) (visits : b.Visits envs k (.error f) b') :
    b.Swept b' [] [] ∧ b.Trouble envs k f := by
  cases visits with
  | failed trouble leaves =>
    exact ⟨.of_touch mem leaves rfl nofun (Stats.ext_counters rfl rfl rfl (UInt64.add_zero _).symm), trouble⟩

omit [BEq M] in
theorem Trouble.congr (trouble : b'.Trouble envs k f) (rules : b'.rules = b.rules)
    (group : b'.store.group k = b.store.group k) : b.Trouble envs k f := by
  cases trouble with
  | store fails => exact .store fails
  | rule here judged => exact .rule (group ▸ here) (rules ▸ judged)

/-- A walk that fails has swept the keys up to the one where it fails. -/
theorem Walks.swept {ks : List K} {a : Outcome (BarrierError K) (Option M)} (nodup : ks.Nodup)
    (tracked : ∀ j ∈ ks, j ∈ b.table.keys) (walks : Walks envs ks b a b') (failed : a = .error f) :
    ∃ walked k rest dropped, ks = walked ++ k :: rest ∧ b.Swept b' walked dropped ∧ b.Trouble envs k f := by
  induction walks with
  | nil | released => cases failed
  | @failed k rest b f' b' visit =>
    cases failed
    obtain ⟨swept, trouble⟩ := visit.swept_of_failed (tracked k List.mem_cons_self)
    exact ⟨[], k, rest, [], rfl, swept, trouble⟩
  | @onward k rest b v b₁ a b₂ visit nothing walk ih =>
    obtain ⟨off, nodup'⟩ := List.nodup_cons.1 nodup
    obtain ⟨dropped, first⟩ := visit.swept (tracked k List.mem_cons_self) nothing
    obtain ⟨walked, k', rest', dropped', rfl, swept, trouble⟩ := ih nodup' (visit.ahead nodup tracked) failed
    have others : ∀ j ∈ walked, j ∉ [k] := fun j on e =>
      off (List.mem_singleton.1 e ▸ List.mem_append_left _ on)
    have later : k ≠ k' := fun e => off (e ▸ List.mem_append_right _ List.mem_cons_self)
    exact ⟨k :: walked, k', rest', dropped ++ dropped', rfl, first.trans swept others,
      trouble.congr visit.rules (visit.elsewhere later).1⟩

/-! ## going on after a failure -/

omit [DecidableEq K] [BEq M] in
/-- The barrier with another release rule. -/
def withRule (b : Barrier K M) (rule : ReleaseRule K M) : Barrier K M := { b with rules := { b.rules with release := rule } }

omit [BEq M] in
/-- What visits have made of a barrier does not depend on the rule that it will have. -/
theorem Turned.withRule {p : Group K M → Bool} {out : List (K × M)} (turned : b.Turned p b' out) (rule : ReleaseRule K M) :
    (b.withRule rule).Turned p (b'.withRule rule) out where
  mode := turned.mode
  policy := turned.policy
  capacity := turned.capacity
  keys := turned.keys
  groups := turned.groups
  entries := turned.entries
  fates := turned.fates
  handed := turned.handed
  waiting := turned.waiting
  content := turned.content
  messages := turned.messages
  accepted := turned.accepted
  released := turned.released
  groupsRemoved := turned.groupsRemoved
  staleKeys := turned.staleKeys

/-- **A failing pull loses nothing.** Take any barrier and pull from it with nobody else around, each call on the store
under circumstances of its own. If the pull fails, no message was handed out or counted. The keys before the one where it
failed are swept: groups that may release and have nothing unmarked are dropped with their keys, keys without a group are
counted and, if the table checks tokens, forgotten. Everything else is as it was, and no token stays held. Once the rule
answers every group by a predicate, as it did wherever it answered, and the store does not fail, draining what the pull has
left comes to the same as draining what was there before it. -/
theorem failed_pull_loses_nothing [ReflBEq M] (b : Barrier K M) (envs : Nat → Surroundings) (order : WalkOrder K)
    (failed : (b.pullInTurn envs order).1 = .error f) :
    let b' := (b.pullInTurn envs order).2
    (∃ walked k rest dropped, order.arrange b.table.keys = walked ++ k :: rest ∧ b.Trouble envs k f ∧
      b.Swept b' walked dropped ∧ b'.store.group k = b.store.group k ∧ b'.table.current k = b.table.current k) ∧
    (∀ k g, b.store.group k = some g → g.unmarked ≠ [] → b'.store.group k = some g) ∧
    b'.handed = b.handed ∧ b'.stats.released = b.stats.released ∧
    ∀ p : Group K M → Bool, b.rules.AnswerBy p → ∀ choices choices' : List (Surroundings × WalkOrder K),
      (∀ c ∈ choices ++ choices', ∀ method, c.1.fault method = none) →
      b.waiting < choices.length → b.waiting < choices'.length →
        let drained := (b.withRule (.when p)).drain choices
        let drained' := (b'.withRule (.when p)).drain choices'
        drained.2.1 = .empty ∧ drained'.2.1 = .empty ∧
        ∃ out out', drained.2.2.handed = b.handed ++ out ∧ drained'.2.2.handed = b.handed ++ out' ∧
          drained.1 = out.map Prod.snd ∧ drained'.1 = out'.map Prod.snd ∧ Agree drained.2.2 drained'.2.2 out out' := by
  intro b'
  have nodup := order.nodup_arrange b.table.keys_nodup
  have tracked : ∀ k ∈ order.arrange b.table.keys, k ∈ b.table.keys := fun k => order.mem_arrange.1
  have walks : Walks envs (order.arrange b.table.keys) b (.error f) b' := failed ▸ walks_pullInTurn envs order b
  obtain ⟨walked, k, rest, dropped, split, swept, trouble⟩ := walks.swept nodup tracked rfl
  have off : k ∉ walked := fun on => by
    rw [split, List.nodup_append] at nodup
    exact nodup.2.2 k on k List.mem_cons_self rfl
  have kept : k ∉ dropped := fun h => off (swept.among.subset h)
  refine ⟨⟨walked, k, rest, dropped, split, trouble, swept, ?_, ?_⟩, fun j g group unmarked => ?_, swept.handed, ?_,
    fun p answers choices choices' quiet enough enough' => ?_⟩
  · rw [swept.group, if_neg kept]
  · rw [swept.current, if_neg fun h => h.elim kept fun h => off h.2.1]
  · have stays : j ∉ dropped := fun h => by
      obtain ⟨g', -, group', drained, -⟩ := swept.drained j h
      rw [group] at group'
      cases group'
      exact unmarked drained
    rw [swept.group, if_neg stays, group]
  · rw [swept.stats]
  · obtain ⟨out₀, turned₀, gives₀⟩ := walks.turned answers nodup tracked
    have none₀ : out₀ = [] := List.map_eq_nil_iff.1 gives₀
    subst none₀
    have turned₀ := turned₀.withRule (.when p)
    have waiting : (b'.withRule (.when p)).waiting = b.waiting := turned₀.waiting
    obtain ⟨last, settled, out, gives, turned⟩ := drain_turned choices (b.withRule (.when p))
      (fun c hc => quiet c (List.mem_append_left _ hc)) rfl enough
    obtain ⟨last', settled', out', gives', turned'⟩ := drain_turned choices' (b'.withRule (.when p))
      (fun c hc => quiet c (List.mem_append_right _ hc)) rfl (waiting ▸ enough')
    have turned' := turned₀.trans turned'
    exact ⟨last, last', out, out', turned.handed, turned'.handed, gives, gives',
      turned.unique turned' settled settled'⟩

/-- A pull that drops the drained group of the key 0 and then fails at the key 2 leaves the group of this one. -/
theorem failed_pull_after_cleanup :
    let b : Barrier Nat Nat :=
      { rules := { correlate := fun m => .ok (m % 3), release := fun g now =>
          if g.key = 2 ∧ now < 10 then Outcome.panicked "not yet" else .ok true }
        table := { policy := .validated, entries := ⟨[(0, 0), (2, 1)], by decide⟩, tokens := [{}, {}] }
        shared := { store := ⟨0, ⟨[(0, { key := 0, marked := [3], createdAt := 0, updatedAt := 0 }),
          (2, { key := 2, unmarked := [5], createdAt := 0, updatedAt := 0 })], by decide⟩, 2⟩ } }
    let choices := List.replicate 2 (({} : Surroundings), WalkOrder.asListed)
    (b.pullInTurn (fun _ => {}) .asListed).1 = .error (.panic "not yet") ∧
      (b.pullInTurn (fun _ => {}) .asListed).2.pendingKeys = [2] ∧
      (b.pullInTurn (fun _ => {}) .asListed).2.store.group 2 = b.store.group 2 ∧
      (((b.pullInTurn (fun _ => {}) .asListed).2.withRule (.when fun _ => true)).drain choices).2.2.store =
        ((b.withRule (.when fun _ => true)).drain choices).2.2.store := by
  intro b choices
  have failed : (b.pullInTurn (fun _ => {}) .asListed).1 = .error (.panic "not yet") := rfl
  have answers : b.rules.AnswerBy fun _ => true := by
    intro g now a judged
    simp only [b] at judged
    split at judged
    · cases judged
    · exact (Except.ok.inj judged).symm
  have quiet : ∀ c ∈ choices ++ choices, ∀ method, c.1.fault method = none := fun c mem _ => by
    have either : c ∈ choices := by simpa using mem
    rw [List.eq_of_mem_replicate either]
  have enough : b.waiting < choices.length := by decide
  obtain ⟨-, unmarked, -, -, healed⟩ := failed_pull_loses_nothing b (fun _ => {}) .asListed failed
  obtain ⟨-, -, out, out', -, -, -, -, agree⟩ := healed _ answers choices choices quiet enough enough
  exact ⟨failed, rfl, unmarked 2 _ rfl (List.cons_ne_nil _ _), agree.store⟩

end Barrier

end CorrelationBarrier
