import CorrelationBarrier.Proofs.Barrier.Solo

/-!
# The tour of a pull

A pull visits keys one after the other. Its tour lists these visits as they happen, each with the barrier that it finds
and the barrier that it leaves.

* `Barrier.Stop`, `Barrier.tour` — a visit, and all visits of a pull;
* `pullInTurn_eq` — the answer of a pull and what it leaves are read off its tour;
* `mem_tour` — a visit finds its key as the pull has found it; `group_pullInTurn` — and what it leaves of the key remains.
-/

namespace CorrelationBarrier

variable {K M : Type}

namespace Barrier

/-- A visit of a pull to a key. -/
structure Stop (K M : Type) where
  key : K
  /-- The barrier before the visit. -/
  found : Barrier K M
  outcome : Outcome (BarrierError K) (Visit M)
  /-- The barrier after the visit and its count. -/
  left : Barrier K M

/-- The barrier after some stops. -/
def arrive : Barrier K M → List (Stop K M) → Barrier K M
  | b, [] => b
  | _, c :: rest => arrive c.left rest

/-- What some stops bring. -/
def bring : List (Stop K M) → Outcome (BarrierError K) (Option M)
  | [] => .ok none
  | c :: rest =>
    match c.outcome with
    | .error f => .error f
    | .ok (.released m) => .ok (some m)
    | .ok _ => bring rest

variable [DecidableEq K] [BEq M]

/-- A stop at a key before the `n`-th call, and the number of the next call. -/
def stopAt (envs : Nat → Surroundings) (b : Barrier K M) (k : K) (n : Nat) : Stop K M × Nat :=
  let (a, s) := (Act.stop b.rules b.table.policy k).run Shared.inTurn envs (b.solo n)
  (⟨k, b, a, { b with table := s.table, shared := s.data.2 }⟩, s.data.1)

/-- The stops at some keys, until one fails or brings a message. -/
def stops (envs : Nat → Surroundings) : List K → Barrier K M → Nat → List (Stop K M)
  | [], _, _ => []
  | k :: rest, b, n =>
    let (c, n') := b.stopAt envs k n
    c :: match c.outcome with
      | .error _ | .ok (.released _) => []
      | .ok _ => stops envs rest c.left n'

/-- The stops of a pull. -/
def tour (envs : Nat → Surroundings) (order : WalkOrder K) (b : Barrier K M) : List (Stop K M) :=
  stops envs (order.arrange b.table.keys) b 0

variable {envs : Nat → Surroundings} {b : Barrier K M} {k : K} {ks : List K} {n : Nat} {c : Stop K M}

theorem stopAt_cases (envs : Nat → Surroundings) (b : Barrier K M) (k : K) (n : Nat) :
    ∃ a b' n', b.stopAt envs k n = (⟨k, b, a, b'⟩, n') ∧ b.Visits envs k a b' ∧
      (Act.stop b.rules b.table.policy k).run Shared.inTurn envs (b.solo n) = (a, b'.solo n') := by
  obtain ⟨a, b', n', visits, ran⟩ := visits_stop envs b k n
  refine ⟨a, b', n', ?_, visits, ran⟩
  have left : b' = { b with table := b'.table, shared := b'.shared } := by rw [← visits.rules]
  rw [stopAt, ran, left]
  rfl

theorem run_walk (envs : Nat → Surroundings) (ks : List K) (b : Barrier K M) (n : Nat) :
    ∃ n', (Act.walk b.rules b.table.policy ks).run Shared.inTurn envs (b.solo n) =
      (bring (stops envs ks b n), (b.arrive (stops envs ks b n)).solo n') ∧
      (b.arrive (stops envs ks b n)).rules = b.rules := by
  induction ks generalizing b n with
  | nil => exact ⟨n, rfl, rfl⟩
  | cons k rest ih =>
    obtain ⟨a, b', n', stop, visits, ran⟩ := stopAt_cases envs b k n
    rw [Act.walk_cons, Program.bind_eq, Program.run_bind, ran, stops, stop]
    rcases a with f | (m | _ | _ | _)
    · exact ⟨n', rfl, visits.rules⟩
    · exact ⟨n', rfl, visits.rules⟩
    all_goals
      obtain ⟨n'', walked, rules⟩ := ih b' n'
      rw [visits.rules, visits.policy] at walked
      exact ⟨n'', walked, rules.trans visits.rules⟩

/-- A pull answers what its tour brings, and leaves what its tour leaves. -/
theorem pullInTurn_eq (envs : Nat → Surroundings) (order : WalkOrder K) (b : Barrier K M) :
    b.pullInTurn envs order = (bring (b.tour envs order), b.arrive (b.tour envs order)) := by
  obtain ⟨n', walked, rules⟩ := run_walk envs (order.arrange b.table.keys) b 0
  have pulled : b.pullInTurn envs order =
      (let (a, s) := (Act.walk b.rules b.table.policy (order.arrange b.table.keys)).run Shared.inTurn envs (b.solo 0)
       (a, { b with table := s.table, shared := s.data.2 })) := rfl
  rw [pulled, walked, tour, ← rules]
  rfl

/-- The stops begin with one at the first key, and end there or go on. -/
theorem stops_cases (envs : Nat → Surroundings) (k : K) (rest : List K) (b : Barrier K M) (n : Nat) :
    ∃ a b' l, stops envs (k :: rest) b n = ⟨k, b, a, b'⟩ :: l ∧ b.Visits envs k a b' ∧
      (l = [] ∨ ∃ n', l = stops envs rest b' n') := by
  obtain ⟨a, b', n', stop, visits, -⟩ := stopAt_cases envs b k n
  rw [stops, stop]
  rcases a with f | (m | _ | _ | _)
  · exact ⟨_, _, _, rfl, visits, .inl rfl⟩
  · exact ⟨_, _, _, rfl, visits, .inl rfl⟩
  all_goals exact ⟨_, _, _, rfl, visits, .inr ⟨n', rfl⟩⟩

/-- A stop finds its key as the first one did, for the stops in between are at other keys. -/
theorem mem_stops (nodup : ks.Nodup) (mem : c ∈ stops envs ks b n) : c.key ∈ ks ∧
    c.found.Visits envs c.key c.outcome c.left ∧ c.found.rules = b.rules ∧
    c.found.store.group c.key = b.store.group c.key := by
  induction ks generalizing b n with
  | nil => cases mem
  | cons k rest ih =>
    obtain ⟨off, nodup⟩ := List.nodup_cons.1 nodup
    obtain ⟨a, b', l, first, visits, onward⟩ := stops_cases envs k rest b n
    rw [first] at mem
    rcases List.mem_cons.1 mem with rfl | mem
    · exact ⟨List.mem_cons_self, visits, rfl, rfl⟩
    · rcases onward with rfl | ⟨n', rfl⟩
      · cases mem
      · obtain ⟨on, visits', rules, group⟩ := ih nodup mem
        have elsewhere := visits.elsewhere fun same => off (same ▸ on)
        exact ⟨List.mem_cons_of_mem _ on, visits', rules.trans visits.rules, group.trans elsewhere.1⟩

/-- What a stop leaves of its key remains, and a key without a stop is as it was. -/
theorem arrive_stops (envs : Nat → Surroundings) (ks : List K) (b : Barrier K M) (n : Nat) (k : K) :
    (∃ c ∈ stops envs ks b n, c.key = k ∧ (b.arrive (stops envs ks b n)).store.group k = c.left.store.group k) ∨
      (b.arrive (stops envs ks b n)).store.group k = b.store.group k := by
  induction ks generalizing b n with
  | nil => exact .inr rfl
  | cons j rest ih =>
    obtain ⟨a, b', l, first, visits, onward⟩ := stops_cases envs j rest b n
    have later : (∃ c ∈ l, c.key = k ∧ (b'.arrive l).store.group k = c.left.store.group k) ∨
        (b'.arrive l).store.group k = b'.store.group k := by
      rcases onward with rfl | ⟨n', rfl⟩
      · exact .inr rfl
      · exact ih b' n'
    rw [first]
    rcases later with ⟨c, mem, key, group⟩ | group
    · exact .inl ⟨c, List.mem_cons_of_mem _ mem, key, group⟩
    · by_cases hj : j = k
      · exact .inl ⟨_, List.mem_cons_self, hj, group⟩
      · exact .inr (group.trans (visits.elsewhere hj).1)

theorem mem_tour {order : WalkOrder K} (mem : c ∈ b.tour envs order) :
    c.found.Visits envs c.key c.outcome c.left ∧ c.found.rules = b.rules ∧
      c.found.store.group c.key = b.store.group c.key :=
  (mem_stops (order.nodup_arrange b.table.keys_nodup) mem).2

/-- A pull changes a key by a visit only. -/
theorem group_pullInTurn (envs : Nat → Surroundings) (order : WalkOrder K) (b : Barrier K M) (k : K) :
    (∃ c ∈ b.tour envs order, c.key = k ∧ (b.pullInTurn envs order).2.store.group k = c.left.store.group k) ∨
      (b.pullInTurn envs order).2.store.group k = b.store.group k := by
  rw [pullInTurn_eq]
  exact arrive_stops ..

end Barrier

end CorrelationBarrier
