import CorrelationBarrier.Assoc
import CorrelationBarrier.Span

/-!
# Message groups

A group holds the messages of one key: the unmarked ones, which may still be released, oldest first, and the marked ones,
in the order in which they were marked.
-/

namespace CorrelationBarrier

/-- The messages held under one key. -/
structure Group (K M : Type) where
  key : K
  unmarked : List M := []
  marked : List M := []
  /-- When the first message came in. -/
  createdAt : Instant
  /-- When the last message came in. -/
  updatedAt : Instant
  deriving DecidableEq

namespace Group

variable {K M : Type}

/-- The number of messages, marked or not. -/
def size (g : Group K M) : Nat := g.unmarked.length + g.marked.length

/-- The group with one more message at the end. -/
def push (g : Group K M) (now : Instant) (m : M) : Group K M :=
  { g with unmarked := g.unmarked ++ [m], updatedAt := now }

/-- Takes the first element that equals `m` out of a list: the rest and the element, if there is one. -/
def takeEqual [BEq M] (m : M) : List M → Option (M × List M)
  | [] => none
  | x :: r => if x == m then some (x, r) else (takeEqual m r).map fun (y, rest) => (y, x :: rest)

/-- The group without one message that equals `m`: an unmarked one, or else a marked one. -/
def remove [BEq M] (g : Group K M) (m : M) : Group K M :=
  match takeEqual m g.unmarked with
  | some (_, rest) => { g with unmarked := rest }
  | none =>
    match takeEqual m g.marked with
    | some (_, rest) => { g with marked := rest }
    | none => g

/-- The group with the first unmarked message that equals `m` moved to the end of the marked ones. -/
def mark [BEq M] (g : Group K M) (m : M) : Group K M :=
  match takeEqual m g.unmarked with
  | some (x, rest) => { g with unmarked := rest, marked := g.marked ++ [x] }
  | none => g

theorem size_push (g : Group K M) (now : Instant) (m : M) : (g.push now m).size = g.size + 1 := by
  simp only [size, push, List.length_append, List.length_singleton]; omega

theorem length_takeEqual [BEq M] {m x : M} {l r : List M} (h : takeEqual m l = some (x, r)) :
    l.length = r.length + 1 := by
  induction l generalizing r with
  | nil => simp [takeEqual] at h
  | cons y l ih =>
    by_cases hy : y == m
    · simp [takeEqual, hy] at h; simp [h.2]
    · rw [takeEqual, if_neg hy, Option.map_eq_some_iff] at h
      obtain ⟨⟨z, rest⟩, hz, he⟩ := h
      obtain ⟨rfl, rfl⟩ := Prod.mk.inj he
      simp [ih hz]

theorem takeEqual_head [BEq M] [ReflBEq M] (m : M) (r : List M) : takeEqual m (m :: r) = some (m, r) := by
  simp [takeEqual]

theorem size_mark [BEq M] (g : Group K M) (m : M) : (g.mark m).size = g.size := by
  unfold mark
  split
  · rename_i x rest h
    have := length_takeEqual h
    simp only [size, List.length_append, List.length_singleton]; omega
  · rfl

theorem size_remove_le [BEq M] (g : Group K M) (m : M) : (g.remove m).size ≤ g.size := by
  unfold remove
  split
  · rename_i h
    have := length_takeEqual h
    simp only [size]; omega
  · split
    · rename_i h
      have := length_takeEqual h
      simp only [size]; omega
    · exact Nat.le_refl _

end Group

end CorrelationBarrier
