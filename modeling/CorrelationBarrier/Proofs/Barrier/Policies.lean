import CorrelationBarrier.Proofs.Barrier.Accounts
import CorrelationBarrier.Proofs.Barrier.Rejection

/-!
# Tables that check tokens and tables that do not

One operation at a time, it makes no difference whether the table of a barrier checks tokens. A table that does not keeps
the key of a refused first message, and a pull that comes past such a key finds no group there and goes on.

* `LockTable.Clean`, `LockTable.Extends` — a table between two operations, and one that has a few keys more; sections that
  do the same on both keep them so, and so do the two sections in which they differ (`Extends.linger`, `Extends.leave`);
* `Tandem` — the same operations on a barrier of either kind, one after the other;
* `Barrier.Matches` — what the two barriers have in common: a visit that both make keeps it (`Matches.visit`), one that
  only the tolerant barrier makes changes nothing (`Matches.pass`); `Matches.walk` and `Matches.accept` follow;
* `policies_agree` — the result.
-/

namespace CorrelationBarrier

variable {K M : Type} [DecidableEq K]

/-! ## tables between two operations -/

namespace LockTable

variable {t t' : LockTable K} {k : K} {left : List K}

/-- The entries of a table are different tokens, all made, none retired and none held. -/
structure Clean (t : LockTable K) : Prop where
  made : ∀ k i, t.current k = some i → i < t.tokens.length
  distinct : ∀ k j i, t.current k = some i → t.current j = some i → k = j
  fresh : ∀ k i, t.current k = some i → t.token i = {}

theorem clean_new (policy : TokenPolicy) : (LockTable.new policy : LockTable K).Clean := by
  constructor <;> exact nofun

theorem Clean.touch (clean : t.Clean) (k : K) : (t.touch k).Clean := by
  have entries {j : K} {i : TokenId} (h : (t.touch k).current j = some i) : t.current j = some i ∨
      j = k ∧ i = t.tokens.length ∧ (t.acquire k).2.tokens.length = t.tokens.length + 1 := current_acquire_cases h
  have length : (t.touch k).tokens.length = (t.acquire k).2.tokens.length := by simp [LockTable.touch]
  refine ⟨fun j i h => ?_, fun j j' i h h' => ?_, fun j i h => ?_⟩
  · rw [length]
    rcases entries h with h | ⟨-, rfl, grown⟩
    · exact Nat.lt_of_lt_of_le (clean.made j i h) (length_le_acquire t k)
    · rw [grown]
      exact Nat.lt_succ_self _
  · rcases entries h with h | ⟨hj, hi, -⟩
    · rcases entries h' with h' | ⟨-, hi, -⟩
      · exact clean.distinct j j' i h h'
      · exact absurd (clean.made j i h) (hi ▸ Nat.lt_irrefl _)
    · rcases entries h' with h' | ⟨hj', -, -⟩
      · exact absurd (clean.made j' i h') (hi ▸ Nat.lt_irrefl _)
      · rw [hj, hj']
  · have before : t.token i = {} := by
      rcases entries h with h | ⟨-, rfl, -⟩
      · exact clean.fresh j i h
      · simp [token]
    rw [token_touch, before]
    exact ite_self _

theorem Clean.expel (clean : t.Clean) (k : K) : (t.expel k).Clean := by
  have kept {j : K} {i : TokenId} (h : (t.expel k).current j = some i) : k ≠ j ∧ t.current j = some i := by
    rw [current_expel] at h
    split at h
    · cases h
    · exact ⟨‹_›, h⟩
  have length : (t.expel k).tokens.length = (t.acquire k).2.tokens.length := by simp [LockTable.expel]
  refine ⟨fun j i h => ?_, fun j j' i h h' => clean.distinct j j' i (kept h).2 (kept h').2, fun j i h => ?_⟩
  · rw [length]
    exact Nat.lt_of_lt_of_le (clean.made j i (kept h).2) (length_le_acquire t k)
  · obtain ⟨other, h⟩ := kept h
    rw [token_expel_of_ne, clean.fresh j i h]
    intro same
    cases hk : t.current k with
    | some i' =>
      rw [acquire_of_current hk] at same
      exact other (clean.distinct k j i (same ▸ hk) h)
    | none =>
      rw [acquire_of_not_mem (current_eq_none_iff.1 hk)] at same
      exact absurd (clean.made j i h) (same ▸ Nat.lt_irrefl _)

/-- A table that does not check tokens has the keys of another table, and beyond these at most the keys `left`. -/
structure Extends (left : List K) (t' t : LockTable K) : Prop where
  tolerant : t'.policy = .tolerant
  keys : ∀ k ∈ t.keys, k ∈ t'.keys
  extra : ∀ k ∈ t'.keys, k ∈ t.keys ∨ k ∈ left
  clean : t.Clean
  clean' : t'.Clean

namespace Extends

theorem touch (tables : t'.Extends left t) (k : K) : (t'.touch k).Extends left (t.touch k) where
  tolerant := by rw [policy_touch, tables.tolerant]
  keys j hj := by
    rw [mem_keys_touch] at hj ⊢
    exact hj.imp_right (tables.keys j)
  extra j hj := by
    rw [mem_keys_touch] at hj ⊢
    rw [or_assoc]
    exact hj.imp_right (tables.extra j)
  clean := tables.clean.touch k
  clean' := tables.clean'.touch k

theorem expel (tables : t'.Extends left t) (k : K) : (t'.expel k).Extends left (t.expel k) where
  tolerant := by rw [policy_expel, tables.tolerant]
  keys j hj := by
    rw [mem_keys_expel] at hj ⊢
    exact hj.imp_right (tables.keys j)
  extra j hj := by
    rw [mem_keys_expel] at hj ⊢
    exact (tables.extra j hj.2).imp_left fun h => ⟨hj.1, h⟩
  clean := tables.clean.expel k
  clean' := tables.clean'.expel k

/-- A section of a key that is there anyway, on the larger table only. -/
theorem linger (tables : t'.Extends left t) (mem : k ∈ t'.keys) : (t'.touch k).Extends left t where
  tolerant := by rw [policy_touch, tables.tolerant]
  keys := by rw [keys_touch mem]; exact tables.keys
  extra := by rw [keys_touch mem]; exact tables.extra
  clean := tables.clean
  clean' := tables.clean'.touch k

/-- Sections of which only the one on the smaller table forgets its key. -/
theorem leave (tables : t'.Extends left t) (k : K) : (t'.touch k).Extends (left ++ [k]) (t.expel k) where
  tolerant := by rw [policy_touch, tables.tolerant]
  keys j hj := by
    rw [mem_keys_expel] at hj
    exact mem_keys_touch.2 (.inr (tables.keys j hj.2))
  extra j hj := by
    rw [mem_keys_touch] at hj
    rw [mem_keys_expel, List.mem_append, List.mem_singleton]
    by_cases hk : k = j
    · exact .inr (.inr hk.symm)
    · exact (tables.extra j (hj.resolve_left hk)).imp (fun h => ⟨hk, h⟩) .inl
  clean := tables.clean.expel k
  clean' := tables.clean'.touch k

end Extends

end LockTable

variable [BEq M]

/-! ## two barriers side by side -/

/-- A release rule that looks at the group only. -/
def Rules.Timeless (rules : Rules K M) : Prop := ∀ g now now', rules.release g now = rules.release g now'

namespace Barrier

/-- Circumstances at the times of a clock, in which no call on the store fails. -/
def onTime (clock : Nat → Instant) : Nat → Surroundings := fun n => { now := clock n }

/-- What an operation comes to on two barriers: the answers of both. Where a message is accepted, the store of the first
before it is noted too. -/
inductive Bout (K M : Type) where
  | accept (m : M) (before : GroupStore K M) (o o' : Outcome (BarrierError K) Unit)
  | pull (o o' : Outcome (BarrierError K) (Option M))

/-- Both barriers answer the same. -/
def Bout.Agrees : Bout K M → Prop
  | .accept _ _ o o' => o = o'
  | .pull o o' => o = o'

/-- The key without a group whose message was refused. -/
def Bout.turnedAway? (rules : Rules K M) : Bout K M → Option K
  | .accept m before (.error _) _ =>
    match rules.correlate m with
    | .ok k => if (before.group k).isNone then some k else none
    | .error _ => none
  | _ => none

omit [BEq M] in
theorem Bout.turnedAway?_refused {rules : Rules K M} {m : M} {k : K} (key : rules.correlate m = .ok k)
    {before : GroupStore K M} {f : Failure (BarrierError K)} {o' : Outcome (BarrierError K) Unit} :
    Bout.turnedAway? rules (.accept m before (.error f) o') = if (before.group k).isNone then some k else none := by
  rw [turnedAway?, key]

/-- `Tandem rules capacity bouts v t`: the same operations, one after the other, on a new barrier whose table checks tokens
and on one whose table does not, lead to `v` and `t`. A message comes to both at the same time. A pull visits the keys that
both tables have in the same order. -/
inductive Tandem (rules : Rules K M) (capacity : Nat) : List (Bout K M) → Barrier K M → Barrier K M → Prop where
  | here : Tandem rules capacity [] (.new rules .validated capacity) (.new rules .tolerant capacity)
  | accept {bouts v t} (before : Tandem rules capacity bouts v t) (clock : Nat → Instant) (m : M) :
    Tandem rules capacity
      (bouts ++ [.accept m v.store (v.acceptInTurn (onTime clock) m).1 (t.acceptInTurn (onTime clock) m).1])
      (v.acceptInTurn (onTime clock) m).2 (t.acceptInTurn (onTime clock) m).2
  | pull {bouts v t} (before : Tandem rules capacity bouts v t) (clock clock' : Nat → Instant) (order order' : WalkOrder K)
    (alike : (order'.arrange t.pendingKeys).filter (· ∈ v.pendingKeys) = order.arrange v.pendingKeys) :
    Tandem rules capacity
      (bouts ++ [.pull (v.pullInTurn (onTime clock) order).1 (t.pullInTurn (onTime clock') order').1])
      (v.pullInTurn (onTime clock) order).2 (t.pullInTurn (onTime clock') order').2

/-- The barrier `t`, whose table does not check tokens, is as `v` is, whose table does, but for the keys `left`. -/
structure Matches (left : List K) (v t : Barrier K M) : Prop where
  tidy : v.Tidy
  rules : t.rules = v.rules
  store : t.store = v.store
  counters : ∀ c, c ≠ .staleKeys → t.stats.read c = v.stats.read c
  events : t.events.filter (·.counter ≠ .staleKeys) = v.events
  tables : t.table.Extends left v.table

section Acceptance

variable {b : Barrier K M} {k : K} {m : M} {clock : Nat → Instant}

theorem accept_added {store : GroupStore K M} (key : b.rules.correlate m = .ok k)
    (add : b.store.add (clock 0) k m = .ok store) :
    (b.acceptInTurn (onTime clock) m).1 = .ok () ∧ b.Leaves (b.acceptInTurn (onTime clock) m).2 (b.table.touch k) store
      (b.stats.bump .accepted) [.accepted k m] := by
  have added : b.shared.perform (onTime clock 0) (.add k m) = (.ok (), { b.shared.noted .add k with store := store }) := by
    rw [Shared.perform, Shared.onStore_of_ok rfl (congrArg (Except.map _) add)]
    rfl
  have ran : (Act.intake b.table.policy k m).run Shared.inTurn (onTime clock) (b.inside k 0) =
      (.ok (), ⟨(b.table.acquire k).2.hold (b.table.acquire k).1, [⟨k, (b.table.acquire k).1⟩],
        (1, { b.shared.noted .add k with store := store })⟩) := by
    unfold Act.intake inside
    rw [Program.run_ask added]
    rfl
  rw [accept_of_intake key ran]
  exact ⟨rfl, rfl, rfl, rfl, rfl, by simp [afterIntake, counted, events]⟩

/-- If the table checks tokens, the key of a refused message goes again unless it has a group. -/
theorem accept_refused {e : StoreError} (key : b.rules.correlate m = .ok k)
    (add : b.store.add (clock 0) k m = .error e) :
    (b.acceptInTurn (onTime clock) m).1 = .error (.error (.store e)) ∧ b.Leaves (b.acceptInTurn (onTime clock) m).2
      (if b.table.policy = .validated ∧ b.store.group k = none then b.table.expel k else b.table.touch k) b.store b.stats
      [] := by
  have refused : b.shared.perform (onTime clock 0) (.add k m) = (.error (.error e), b.shared.noted .add k) := by
    rw [Shared.perform, Shared.onStore_of_error rfl (congrArg (Except.map _) add)]
    rfl
  obtain ⟨t, n, d, ran, leaves⟩ : ∃ t n d, (Act.intake b.table.policy k m).run Shared.inTurn (onTime clock) (b.inside k 0) =
      (.error (.error e), ⟨t, [⟨k, (b.table.acquire k).1⟩], (n, d)⟩) ∧
      b.Leaves ⟨b.rules, t.release (b.table.acquire k).1, d⟩
        (if b.table.policy = .validated ∧ b.store.group k = none then b.table.expel k else b.table.touch k) b.store
        b.stats [] := by
    unfold Act.intake inside
    rw [Program.run_ask refused]
    cases policy : b.table.policy with
    | tolerant =>
      rw [if_neg (fun h => by cases h.1)]
      exact ⟨_, _, _, rfl, rfl, rfl, rfl, rfl, by simp [events]⟩
    | validated =>
      dsimp only
      rw [if_pos rfl, Program.run_ask (Shared.read_of_no_fault rfl)]
      cases group : b.store.group k with
      | some g =>
        have group : (b.shared.noted .add k).store.group k = some g := group
        rw [if_neg (fun h => by cases h.2), group]
        exact ⟨_, _, _, rfl, rfl, rfl, rfl, rfl, by simp [events]⟩
      | none =>
        have group : (b.shared.noted .add k).store.group k = none := group
        rw [if_pos ⟨rfl, rfl⟩, group]
        exact ⟨_, _, _, rfl, rfl, rfl, rfl, rfl, by simp [events]⟩
  rw [accept_of_intake key ran]
  exact ⟨rfl, leaves⟩

end Acceptance

/-- A visit to a key without a group finds it stale. -/
theorem Visits.stale_of_none {b b' : Barrier K M} {clock : Nat → Instant} {k : K}
    {a : Outcome (BarrierError K) (Visit M)} (visits : b.Visits (onTime clock) k a b') (none : b.store.group k = none) :
    a = .ok .stale := by
  cases visits with
  | failed trouble =>
    cases trouble with
    | store fails => cases fails
    | rule group =>
      rw [none] at group
      cases group
  | held group | released group | drained group =>
    rw [none] at group
    cases group
  | forgotten | missed => rfl

namespace Matches

variable {left left' : List K} {v t v' t' : Barrier K M} {k : K} {clock clock' : Nat → Instant}

omit [BEq M] in
/-- Operations that leave the same store, count alike and report the same leave matching barriers behind. -/
theorem after {table table' : LockTable K} {store : GroupStore K M} {stats stats' : Stats} {es : List (Event K M)}
    (same : Matches left v t) (tidy : v'.Tidy) (leaves : v.Leaves v' table store stats es)
    (leaves' : t.Leaves t' table' store stats' es)
    (counters : ∀ c, c ≠ .staleKeys → stats'.read c = stats.read c)
    (shown : ∀ e ∈ es, e.counter ≠ .staleKeys) (tables : table'.Extends left' table) : Matches left' v' t' where
  tidy := tidy
  rules := by rw [leaves'.rules, leaves.rules, same.rules]
  store := by rw [leaves'.store, leaves.store]
  counters := by rw [leaves'.stats, leaves.stats]; exact counters
  events := by
    rw [leaves'.events, leaves.events, List.filter_append, same.events, List.filter_eq_self.2]
    simpa using shown
  tables := by rw [leaves'.table, leaves.table]; exact tables

omit [BEq M] in
theorem bump (same : Matches left v t) (c : Counter) :
    ∀ c', c' ≠ .staleKeys → (t.stats.bump c).read c' = (v.stats.bump c).read c' := by
  intro c' hc
  rw [Stats.read_bump, Stats.read_bump, same.counters c' hc]

/-! ### visits -/

/-- What a visit to a group comes to, as the rule judges the group. -/
def verdict (k : K) (g : Group K M) : Outcome StrategyError Bool → Outcome (BarrierError K) (Visit M)
  | .error f => .error (f.map (.release k))
  | .ok false => .ok .held
  | .ok true =>
    match g.unmarked with
    | m :: _ => .ok (.released m)
    | [] => .ok .drained

theorem verdict_of_visits {a : Outcome (BarrierError K) (Visit M)} {g : Group K M} {judged : Outcome StrategyError Bool}
    (group : v.store.group k = some g) (judges : ∀ now, v.rules.release g now = judged)
    (visits : v.Visits (onTime clock) k a v') : a = verdict k g judged := by
  cases visits with
  | failed trouble =>
    cases trouble with
    | store fails => cases fails
    | rule group' judged' =>
      rw [group] at group'
      cases group'
      rw [← judges, judged', verdict]
  | held group' judged' =>
    rw [group] at group'
    cases group'
    rw [← judges, judged', verdict]
  | released group' judged' unmarked | drained group' judged' unmarked =>
    rw [group] at group'
    cases group'
    rw [← judges, judged', verdict, unmarked]
  | forgotten _ none | missed _ none =>
    rw [group] at none
    cases none

/-- A visit to a key that both have comes to the same, and leaves matching barriers behind. -/
theorem visit {a a' : Outcome (BarrierError K) (Visit M)} (same : Matches left v t) (timeless : v.rules.Timeless)
    (mem : k ∈ v.table.keys) (visits : v.Visits (onTime clock) k a v') (visits' : t.Visits (onTime clock') k a' t') :
    a' = a ∧ Matches left v' t' := by
  obtain ⟨g, group⟩ := Option.isSome_iff_exists.1 (same.tidy.grouped mem)
  have group' : t.store.group k = some g := by rw [same.store, group]
  have judges' (now : Instant) : t.rules.release g now = v.rules.release g 0 := by
    rw [same.rules]
    exact timeless g now 0
  have agree : a' = a := by
    rw [verdict_of_visits group (fun now => timeless g now 0) visits, verdict_of_visits group' judges' visits']
  have tidy := same.tidy.visit mem visits
  have touched := same.tables.touch k
  subst agree
  refine ⟨rfl, ?_⟩
  cases visits with
  | failed _ leaves =>
    cases visits' with
    | failed _ leaves' => exact same.after tidy leaves (same.store ▸ leaves') same.counters nofun touched
  | held _ _ leaves =>
    cases visits' with
    | held _ _ leaves' => exact same.after tidy leaves (same.store ▸ leaves') same.counters nofun touched
  | released _ _ _ leaves =>
    cases visits' with
    | released _ _ _ leaves' =>
      rw [same.store, same.rules] at leaves'
      exact same.after tidy leaves leaves' (same.bump _) (by simp [Event.counter]) touched
  | drained _ _ _ leaves =>
    cases visits' with
    | drained _ _ _ leaves' =>
      rw [same.store] at leaves'
      exact same.after tidy leaves leaves' (same.bump _) (by simp [Event.counter]) (same.tables.expel k)
  | forgotten _ none | missed _ none =>
    rw [group] at none
    cases none

/-- A visit to a key that only the tolerant barrier has finds no group, and goes unnoticed. -/
theorem pass {a' : Outcome (BarrierError K) (Visit M)} (same : Matches left v t) (off : k ∉ v.table.keys)
    (mem : k ∈ t.table.keys) (visits' : t.Visits (onTime clock') k a' t') : a' = .ok .stale ∧ Matches left v t' := by
  have none : t.store.group k = none := by
    rw [same.store, ← Option.not_isSome_iff_eq_none, ← same.tidy.tracked]
    exact off
  have stale := visits'.stale_of_none none
  subst stale
  cases visits' with
  | forgotten validated =>
    rw [same.tables.tolerant] at validated
    cases validated
  | missed _ _ leaves =>
    refine ⟨rfl, same.tidy, leaves.rules.trans same.rules, leaves.store.trans same.store, fun c hc => ?_, ?_, ?_⟩
    · have other : [Counter.staleKeys].count c = 0 := List.count_eq_zero.2 (by simpa using hc)
      rw [leaves.stats, Stats.read_bump, same.counters c hc, other]
      exact UInt64.add_zero _
    · rw [leaves.events, List.filter_append, same.events]
      exact List.append_nil _
    · rw [leaves.table]
      exact same.tables.linger mem

/-- A visit on the way of the tolerant barrier ends the way of the other one as well, or leaves it with what is ahead. -/
theorem ahead {rest : List K} {a : Outcome (BarrierError K) (Option M)} {a' : Outcome (BarrierError K) (Visit M)}
    (same : Matches left v t) (timeless : v.rules.Timeless) (nodup : (k :: rest).Nodup) (mem' : k ∈ t.table.keys)
    (walks : Walks (onTime clock) ((k :: rest).filter (· ∈ v.table.keys)) v a v')
    (visits' : t.Visits (onTime clock') k a' t') :
    match a' with
    | .error f => a = .error f ∧ Matches left v' t'
    | .ok (.released m) => a = .ok (some m) ∧ Matches left v' t'
    | .ok _ => ∃ w, w.rules = v.rules ∧ Matches left w t' ∧
        Walks (onTime clock) (rest.filter (· ∈ w.table.keys)) w a v' := by
  by_cases mem : k ∈ v.table.keys
  · rw [List.filter_cons_of_pos (by simpa)] at walks
    cases walks with
    | failed visit =>
      obtain ⟨rfl, same⟩ := same.visit timeless mem visit visits'
      exact ⟨rfl, same⟩
    | released visit =>
      obtain ⟨rfl, same⟩ := same.visit timeless mem visit visits'
      exact ⟨rfl, same⟩
    | @onward _ _ _ came w _ _ visit nothing walk =>
      obtain ⟨rfl, same⟩ := same.visit timeless mem visit visits'
      -- the visit leaves the other keys alone, so the keys that both tables have are still the same
      have keys : rest.filter (· ∈ v.table.keys) = rest.filter (· ∈ w.table.keys) := by
        refine List.filter_congr fun j hj => decide_eq_decide.2 ?_
        have other : k ≠ j := fun e => (List.nodup_cons.1 nodup).1 (e ▸ hj)
        rw [LockTable.mem_keys_iff, LockTable.mem_keys_iff, (visit.elsewhere other).2]
      rw [keys] at walk
      cases came with
      | released m => exact absurd rfl (nothing m)
      | _ => exact ⟨w, visit.rules, same, walk⟩
  · rw [List.filter_cons_of_neg (by simpa)] at walks
    obtain ⟨rfl, same⟩ := same.pass mem mem' visits'
    exact ⟨v, rfl, same, walks⟩

/-- Walks along keys that both visit in the same order come to the same. -/
theorem walk {ks : List K} {a a' : Outcome (BarrierError K) (Option M)} (same : Matches left v t)
    (timeless : v.rules.Timeless) (nodup : ks.Nodup) (tracked : ∀ k ∈ ks, k ∈ t.table.keys)
    (walks : Walks (onTime clock) (ks.filter (· ∈ v.table.keys)) v a v') (walks' : Walks (onTime clock') ks t a' t') :
    a' = a ∧ Matches left v' t' := by
  induction walks' generalizing v with
  | nil =>
    cases walks
    exact ⟨rfl, same⟩
  | failed visit' | released visit' =>
    obtain ⟨agree, same⟩ := same.ahead timeless nodup (tracked _ List.mem_cons_self) walks visit'
    exact ⟨agree.symm, same⟩
  | @onward k rest t came w' a' t' visit' nothing walk' ih =>
    have further := same.ahead timeless nodup (tracked k List.mem_cons_self) walks visit'
    obtain ⟨w, rules, same, walk⟩ : ∃ w, w.rules = v.rules ∧ Matches left w w' ∧
        Walks (onTime clock) (rest.filter (· ∈ w.table.keys)) w a v' := by
      cases came with
      | released m => exact absurd rfl (nothing m)
      | _ => exact further
    exact ih same (rules ▸ timeless) (List.nodup_cons.1 nodup).2 (visit'.ahead nodup tracked) walk

/-! ### operations -/

theorem pull (same : Matches left v t) (timeless : v.rules.Timeless) (clock clock' : Nat → Instant)
    {order order' : WalkOrder K}
    (alike : (order'.arrange t.pendingKeys).filter (· ∈ v.pendingKeys) = order.arrange v.pendingKeys) :
    (t.pullInTurn (onTime clock') order').1 = (v.pullInTurn (onTime clock) order).1 ∧
      Matches left (v.pullInTurn (onTime clock) order).2 (t.pullInTurn (onTime clock') order').2 := by
  have walks := walks_pullInTurn (onTime clock) order v
  have tracked : ∀ k ∈ order'.arrange t.table.keys, k ∈ t.table.keys := fun _ => order'.mem_arrange.1
  have alike : (order'.arrange t.table.keys).filter (· ∈ v.table.keys) = order.arrange v.table.keys := alike
  rw [← alike] at walks
  exact same.walk timeless (order'.nodup_arrange t.table.keys_nodup) tracked walks
    (walks_pullInTurn (onTime clock') order' t)

omit [BEq M] in
/-- For every order in which the tolerant barrier may visit its keys there is one for the other barrier. -/
theorem exists_order (same : Matches left v t) (order' : WalkOrder K) : ∃ order : WalkOrder K,
    (order'.arrange t.pendingKeys).filter (· ∈ v.pendingKeys) = order.arrange v.pendingKeys := by
  have perm : ((order'.arrange t.table.keys).filter (· ∈ v.table.keys)).Perm v.table.keys := by
    refine (List.perm_ext_iff_of_nodup ((order'.nodup_arrange t.table.keys_nodup).filter _) v.table.keys_nodup).2 ?_
    intro k
    rw [List.mem_filter, order'.mem_arrange, decide_eq_true_eq]
    exact ⟨And.right, fun mem => ⟨same.tables.keys k mem, mem⟩⟩
  refine ⟨⟨fun ks => if ks = v.table.keys then (order'.arrange t.table.keys).filter (· ∈ v.table.keys) else ks,
    fun ks => ?_⟩, (if_pos rfl).symm⟩
  split
  · rename_i known
    rw [known]
    exact perm
  · exact .refl ks

/-- An acceptance comes to the same. A key without a group whose message is refused is left to the tolerant barrier. -/
theorem accept (same : Matches left v t) (clock : Nat → Instant) (m : M) :
    let o := (v.acceptInTurn (onTime clock) m).1
    let o' := (t.acceptInTurn (onTime clock) m).1
    o' = o ∧ Matches (left ++ (Bout.turnedAway? v.rules (.accept m v.store o o')).toList)
      (v.acceptInTurn (onTime clock) m).2 (t.acceptInTurn (onTime clock) m).2 := by
  have tidy : (v.acceptInTurn (onTime clock) m).2.Tidy := (same.tidy.accept (fun _ _ => rfl) m).1
  cases key : v.rules.correlate m with
  | error f =>
    have key' : t.rules.correlate m = .error f := by rw [same.rules, key]
    have untouched {b : Barrier K M} (none : b.rules.correlate m = .error f) :
        b.acceptInTurn (onTime clock) m = (.error (f.map .correlation), b) := by
      rcases accept_cases (onTime clock) b m with ⟨f', some, -, refused⟩ | ⟨k, -, -, some, -⟩
      · rw [none] at some
        cases some
        exact refused
      · rw [none] at some
        cases some
    rw [untouched key, untouched key']
    refine ⟨rfl, ?_⟩
    rw [Bout.turnedAway?, key, Option.toList_none, List.append_nil]
    exact same
  | ok k =>
    have key' : t.rules.correlate m = .ok k := by rw [same.rules, key]
    cases add : v.store.add (clock 0) k m with
    | ok store =>
      have add' : t.store.add (clock 0) k m = .ok store := by rw [same.store, add]
      obtain ⟨answer, leaves⟩ := accept_added key add
      obtain ⟨answer', leaves'⟩ := accept_added key' add'
      rw [answer, answer']
      refine ⟨rfl, ?_⟩
      show Matches (left ++ []) _ _
      rw [List.append_nil]
      exact same.after tidy leaves leaves' (same.bump _) (by simp [Event.counter]) (same.tables.touch k)
    | error e =>
      have add' : t.store.add (clock 0) k m = .error e := by rw [same.store, add]
      obtain ⟨answer, leaves⟩ := accept_refused key add
      obtain ⟨answer', leaves'⟩ := accept_refused key' add'
      rw [answer, answer']
      refine ⟨rfl, ?_⟩
      rw [Bout.turnedAway?_refused key]
      have tolerant : ¬ (t.table.policy = .validated ∧ t.store.group k = none) := fun h => by
        cases same.tables.tolerant.symm.trans h.1
      rw [if_neg tolerant, same.store] at leaves'
      cases group : v.store.group k with
      | none =>
        rw [if_pos ⟨same.tidy.validated, group⟩] at leaves
        exact same.after tidy leaves leaves' same.counters nofun (same.tables.leave k)
      | some g =>
        have grouped : ¬ (v.table.policy = .validated ∧ v.store.group k = none) := fun h => by
          cases group.symm.trans h.2
        rw [if_neg grouped] at leaves
        show Matches (left ++ []) _ _
        rw [List.append_nil]
        exact same.after tidy leaves leaves' same.counters nofun (same.tables.touch k)

end Matches

variable {rules : Rules K M} {capacity : Nat} {bouts : List (Bout K M)} {v t : Barrier K M}

omit [BEq M] in
theorem turnedAway_one (rules : Rules K M) (e : Bout K M) :
    [e].filterMap (·.turnedAway? rules) = (e.turnedAway? rules).toList := by
  cases h : e.turnedAway? rules <;> simp [h]

/-- Whatever the operations, the two barriers answer the same and match. -/
theorem Tandem.matches (tandem : Tandem rules capacity bouts v t) (timeless : rules.Timeless) :
    v.rules = rules ∧ (∀ e ∈ bouts, e.Agrees) ∧ Matches (bouts.filterMap (·.turnedAway? rules)) v t := by
  induction tandem with
  | here =>
    refine ⟨rfl, nofun, .new rules capacity, rfl, rfl, fun _ _ => rfl, rfl, rfl, nofun, nofun, ?_, ?_⟩
    · exact LockTable.clean_new .validated
    · exact LockTable.clean_new .tolerant
  | @accept bouts v t before clock m ih =>
    obtain ⟨rfl, agree, same⟩ := ih
    obtain ⟨agree', same⟩ := same.accept clock m
    refine ⟨rfl, fun e he => ?_, ?_⟩
    · rcases List.mem_append.1 he with he | he
      · exact agree e he
      · cases List.mem_singleton.1 he
        exact agree'.symm
    · rw [List.filterMap_append, turnedAway_one]
      exact same
  | @pull bouts v t before clock clock' order order' alike ih =>
    obtain ⟨rfl, agree, same⟩ := ih
    obtain ⟨agree', same⟩ := same.pull timeless clock clock' alike
    refine ⟨rfl, fun e he => ?_, ?_⟩
    · rcases List.mem_append.1 he with he | he
      · exact agree e he
      · cases List.mem_singleton.1 he
        exact agree'.symm
    · rw [List.filterMap_append]
      show Matches (_ ++ []) _ _
      rw [List.append_nil]
      exact same

/-- **The policies agree.** The same operations one after the other on a barrier whose table checks tokens and on one whose
table does not, where the release rule looks at the group only and a pull visits the keys that both have in the same order:
every operation answers the same on both, be it a failure. The stores are equal, and so are all counters but the one of
stale keys, and all events but those that report them. The tolerant table has the keys of the other one, and beyond these
only keys without a group of which a message was refused when they had none; all entries are fresh tokens. And whatever
the order of the next pull on the tolerant barrier, the other one has an order to go with it. -/
theorem policies_agree (timeless : rules.Timeless) (tandem : Tandem rules capacity bouts v t) :
    (∀ e ∈ bouts, e.Agrees) ∧
    v.rules = rules ∧ t.rules = rules ∧
    t.store = v.store ∧
    t.stats = { v.stats with staleKeys := t.stats.staleKeys } ∧
    t.events.filter (·.counter ≠ .staleKeys) = v.events ∧
    (∀ k ∈ v.pendingKeys, k ∈ t.pendingKeys) ∧
    (∀ k ∈ t.pendingKeys, k ∉ v.pendingKeys →
      t.store.group k = none ∧ k ∈ bouts.filterMap (·.turnedAway? rules)) ∧
    v.table.Clean ∧ t.table.Clean ∧
    ∀ order' : WalkOrder K, ∃ order : WalkOrder K,
      (order'.arrange t.pendingKeys).filter (· ∈ v.pendingKeys) = order.arrange v.pendingKeys := by
  obtain ⟨rules, agree, same⟩ := tandem.matches timeless
  refine ⟨agree, rules, same.rules.trans rules, same.store, ?_, same.events, same.tables.keys, fun k mem off => ?_,
    same.tables.clean, same.tables.clean', same.exists_order⟩
  · show t.stats = ⟨v.stats.accepted, v.stats.released, v.stats.groupsRemoved, t.stats.staleKeys⟩
    have accepted : t.stats.accepted = v.stats.accepted := same.counters .accepted nofun
    have released : t.stats.released = v.stats.released := same.counters .released nofun
    have removed : t.stats.groupsRemoved = v.stats.groupsRemoved := same.counters .groupsRemoved nofun
    rw [← accepted, ← released, ← removed]
  · refine ⟨?_, (same.tables.extra k mem).resolve_left off⟩
    rw [same.store, ← Option.not_isSome_iff_eq_none, ← same.tidy.tracked]
    exact off

/-- The second message is refused as the first has filled the store. The tolerant barrier comes past its key once the group
of the first is dropped. -/
theorem policies_agree_on_four_operations :
    let rules : Rules Nat Nat := ⟨fun m => .ok (m % 2), .always, .mark⟩
    ∃ bouts v t, Tandem rules 1 bouts v t ∧ rules.Timeless ∧ bouts.filterMap (·.turnedAway? rules) = [1] ∧
      v.pendingKeys = [] ∧ t.pendingKeys = [1] ∧ v.stats = ⟨1, 1, 1, 0⟩ ∧ t.stats = ⟨1, 1, 1, 1⟩ ∧
      (∀ e ∈ bouts, e.Agrees) ∧ t.store = v.store := by
  intro rules
  have timeless : rules.Timeless := fun _ _ _ => rfl
  have start : Tandem rules 1 [] _ _ := .here
  have accepted := (start.accept (fun n => n) 0).accept (fun n => n) 1
  have pulled := accepted.pull (fun _ => 2) (fun _ => 3) .asListed .asListed (by cbv)
  have drained := pulled.pull (fun _ => 2) (fun _ => 3) .asListed .asListed (by cbv)
  obtain ⟨agree, -, -, store, -⟩ := policies_agree timeless drained
  exact ⟨_, _, _, drained, timeless, by cbv, by cbv, by cbv, by cbv, by cbv, agree, store⟩

end Barrier

end CorrelationBarrier
