/-!
# Maps as lists of pairs

`Assoc K V` is a finite map: a list of pairs with pairwise different keys, in the order in which the keys came in.
`get?_set`, `get?_erase`, `mem_keys_set` and `mem_keys_erase` say what the operations do.
-/

namespace CorrelationBarrier

/-- A finite map. Setting a key that is there keeps its place, a new key goes to the end. -/
structure Assoc (K V : Type) where
  entries : List (K × V)
  nodup : (entries.map Prod.fst).Nodup

namespace Assoc

variable {K V : Type}

/-- The map without keys. -/
def empty : Assoc K V := ⟨[], by simp⟩

instance : Inhabited (Assoc K V) := ⟨empty⟩

/-- The keys, in order. -/
def keys (a : Assoc K V) : List K := a.entries.map Prod.fst

/-- The values, in order of their keys. -/
def values (a : Assoc K V) : List V := a.entries.map Prod.snd

/-- The number of keys. -/
def size (a : Assoc K V) : Nat := a.entries.length

theorem keys_nodup (a : Assoc K V) : a.keys.Nodup := a.nodup

theorem length_keys (a : Assoc K V) : a.keys.length = a.size := by simp [keys, size]

variable [DecidableEq K]

/-! ## look-up -/

/-- The value of the first pair with key `k`. -/
def lookup (k : K) : List (K × V) → Option V
  | [] => none
  | (j, v) :: r => if j = k then some v else lookup k r

/-- The value at `k`, if `k` is a key. -/
def get? (a : Assoc K V) (k : K) : Option V := lookup k a.entries

theorem lookup_isSome {k : K} {l : List (K × V)} : (lookup k l).isSome ↔ k ∈ l.map Prod.fst := by
  induction l with
  | nil => simp [lookup]
  | cons p r ih =>
    obtain ⟨j, v⟩ := p
    by_cases h : j = k
    · simp [lookup, h]
    · have h' : ¬ k = j := fun e => h e.symm
      simpa [lookup, h, h'] using ih

theorem get?_isSome {a : Assoc K V} {k : K} : (a.get? k).isSome ↔ k ∈ a.keys := lookup_isSome

theorem get?_eq_none {a : Assoc K V} {k : K} : a.get? k = none ↔ k ∉ a.keys := by
  rw [← get?_isSome]; cases a.get? k <;> simp

/-! ## setting a key -/

/-- Replaces the value of `k`, or adds the pair at the end. -/
def put (k : K) (v : V) : List (K × V) → List (K × V)
  | [] => [(k, v)]
  | (j, w) :: r => if j = k then (j, v) :: r else (j, w) :: put k v r

theorem mem_put {k x : K} {v : V} {l : List (K × V)} :
    x ∈ (put k v l).map Prod.fst ↔ x = k ∨ x ∈ l.map Prod.fst := by
  induction l with
  | nil => simp [put]
  | cons p r ih =>
    obtain ⟨j, w⟩ := p
    by_cases h : j = k
    · subst h; simp [put]
    · rw [put, if_neg h, List.map_cons, List.map_cons, List.mem_cons, List.mem_cons, ih]
      exact or_left_comm

theorem nodup_put {k : K} {v : V} {l : List (K × V)} (h : (l.map Prod.fst).Nodup) :
    ((put k v l).map Prod.fst).Nodup := by
  induction l with
  | nil => simp [put]
  | cons p r ih =>
    obtain ⟨j, w⟩ := p
    rw [List.map_cons, List.nodup_cons] at h
    by_cases hj : j = k
    · rw [put, if_pos hj]; simpa using h
    · rw [put, if_neg hj, List.map_cons, List.nodup_cons, mem_put]
      exact ⟨fun e => e.elim hj h.1, ih h.2⟩

/-- The map with `v` at `k`. -/
def set (a : Assoc K V) (k : K) (v : V) : Assoc K V := ⟨put k v a.entries, nodup_put a.nodup⟩

theorem lookup_put (k x : K) (v : V) (l : List (K × V)) :
    lookup x (put k v l) = if k = x then some v else lookup x l := by
  induction l with
  | nil => simp [put, lookup]
  | cons p r ih =>
    obtain ⟨j, w⟩ := p
    by_cases hj : j = k
    · subst hj; by_cases hx : j = x <;> simp [put, lookup, hx]
    · by_cases hx : j = x
      · subst hx
        have : ¬ k = j := fun e => hj e.symm
        simp [put, lookup, hj, this]
      · simp [put, lookup, hj, hx, ih]

theorem get?_set (a : Assoc K V) (k x : K) (v : V) :
    (a.set k v).get? x = if k = x then some v else a.get? x := lookup_put k x v a.entries

theorem mem_keys_set {a : Assoc K V} {k x : K} {v : V} : x ∈ (a.set k v).keys ↔ x = k ∨ x ∈ a.keys := mem_put

theorem map_fst_put {k : K} {v : V} {l : List (K × V)} (h : k ∈ l.map Prod.fst) :
    (put k v l).map Prod.fst = l.map Prod.fst := by
  induction l with
  | nil => cases h
  | cons p r ih =>
    obtain ⟨j, w⟩ := p
    by_cases hj : j = k
    · rw [put, if_pos hj]
      rfl
    · rw [put, if_neg hj, List.map_cons, List.map_cons, ih ((List.mem_cons.1 h).resolve_left fun e => hj e.symm)]

/-- Setting a key that is there keeps all keys in their places. -/
theorem keys_set_of_mem {a : Assoc K V} {k : K} {v : V} (h : k ∈ a.keys) : (a.set k v).keys = a.keys := map_fst_put h

theorem map_fst_put_of_not_mem {k : K} {v : V} {l : List (K × V)} (h : k ∉ l.map Prod.fst) :
    (put k v l).map Prod.fst = l.map Prod.fst ++ [k] := by
  induction l with
  | nil => rfl
  | cons p r ih =>
    rw [List.map_cons, List.mem_cons, not_or] at h
    rw [put, if_neg (Ne.symm h.1), List.map_cons, ih h.2]
    rfl

/-- Setting a new key puts it after all others. -/
theorem keys_set_of_not_mem {a : Assoc K V} {k : K} {v : V} (h : k ∉ a.keys) : (a.set k v).keys = a.keys ++ [k] :=
  map_fst_put_of_not_mem h

/-- Which keys there are after setting one does not depend on the values. -/
theorem keys_set_congr {a b : Assoc K V} (h : a.keys = b.keys) (k : K) (v w : V) : (a.set k v).keys = (b.set k w).keys := by
  by_cases mem : k ∈ b.keys
  · rw [keys_set_of_mem mem, keys_set_of_mem (h ▸ mem), h]
  · rw [keys_set_of_not_mem mem, keys_set_of_not_mem (h ▸ mem), h]

theorem size_set (a : Assoc K V) (k : K) (v : V) : (a.set k v).size = a.size + if k ∈ a.keys then 0 else 1 := by
  rw [← length_keys, ← length_keys]
  by_cases h : k ∈ a.keys
  · rw [if_pos h, keys_set_of_mem h, Nat.add_zero]
  · rw [if_neg h, keys_set_of_not_mem h, List.length_append, List.length_singleton]

/-! ## taking a key out -/

/-- The pairs with another key than `k`. -/
def drop (k : K) (l : List (K × V)) : List (K × V) := l.filter fun p => !decide (p.1 = k)

/-- The map without `k`. -/
def erase (a : Assoc K V) (k : K) : Assoc K V :=
  ⟨drop k a.entries, a.nodup.sublist (List.filter_sublist.map Prod.fst)⟩

theorem lookup_drop (k x : K) (l : List (K × V)) :
    lookup x (drop k l) = if k = x then none else lookup x l := by
  induction l with
  | nil => simp [drop, lookup]
  | cons p r ih =>
    obtain ⟨j, w⟩ := p
    simp only [drop] at ih ⊢
    by_cases hj : j = k
    · subst hj
      by_cases hx : j = x
      · subst hx; simpa using ih
      · simpa [lookup, hx] using ih
    · by_cases hx : j = x
      · subst hx
        have : ¬ k = j := fun e => hj e.symm
        simp [lookup, hj, this]
      · simpa [lookup, hj, hx] using ih

theorem get?_erase (a : Assoc K V) (k x : K) :
    (a.erase k).get? x = if k = x then none else a.get? x := lookup_drop k x a.entries

theorem mem_keys_erase {a : Assoc K V} {k x : K} : x ∈ (a.erase k).keys ↔ x ≠ k ∧ x ∈ a.keys := by
  simp only [keys, erase, drop, List.mem_map, List.mem_filter, Bool.not_eq_true', decide_eq_false_iff_not, ne_eq]
  constructor
  · rintro ⟨p, ⟨hp, hk⟩, rfl⟩; exact ⟨hk, p, hp, rfl⟩
  · rintro ⟨hk, p, hp, rfl⟩; exact ⟨p, ⟨hp, hk⟩, rfl⟩

theorem keys_erase (a : Assoc K V) (k : K) : (a.erase k).keys = a.keys.filter fun j => !decide (j = k) := by
  simp only [keys, erase, drop, List.filter_map]
  rfl

/-! ## equality -/

omit [DecidableEq K] in
theorem ext_entries {a b : Assoc K V} (h : a.entries = b.entries) : a = b := by
  cases a
  cases b
  cases h
  rfl

theorem drop_put (k : K) (v : V) (l : List (K × V)) : drop k (put k v l) = drop k l := by
  induction l with
  | nil => simp [put, drop]
  | cons p r ih =>
    obtain ⟨j, w⟩ := p
    simp only [drop] at ih ⊢
    by_cases hj : j = k
    · simp [put, hj]
    · simp [put, hj, ih]

theorem erase_of_not_mem {a : Assoc K V} {k : K} (h : k ∉ a.keys) : a.erase k = a := by
  refine ext_entries (List.filter_eq_self.2 fun p hp => ?_)
  have other : p.1 ≠ k := fun e => h (e ▸ List.mem_map_of_mem hp)
  simp [other]

/-- A key that is set and taken out again leaves nothing behind. -/
theorem erase_set (a : Assoc K V) (k : K) (v : V) : (a.set k v).erase k = a.erase k :=
  ext_entries (drop_put k v a.entries)

theorem entries_eq_of_lookup {l l' : List (K × V)} (nodup : (l.map Prod.fst).Nodup)
    (keys : l.map Prod.fst = l'.map Prod.fst) (same : ∀ k, lookup k l = lookup k l') : l = l' := by
  induction l generalizing l' with
  | nil => exact (List.map_eq_nil_iff.1 keys.symm).symm
  | cons p r ih =>
    obtain ⟨j, v⟩ := p
    cases l' with
    | nil => cases keys
    | cons p' r' =>
      obtain ⟨j', v'⟩ := p'
      obtain ⟨rfl, keys'⟩ := List.cons.inj keys
      obtain ⟨out, nodup⟩ := List.nodup_cons.1 nodup
      have hv : v = v' := by simpa [lookup] using same j
      subst hv
      have out' : j ∉ r'.map Prod.fst := keys' ▸ out
      have rest : r = r' := ih nodup keys' fun k => by
        by_cases hk : j = k
        · subst hk
          rw [← lookup_isSome, Bool.not_eq_true, Option.isSome_eq_false_iff, Option.isNone_iff_eq_none] at out out'
          rw [out, out']
        · simpa [lookup, hk] using same k
      rw [rest]

/-- Maps with the same keys in the same order and the same values are equal. -/
theorem ext_keys {a b : Assoc K V} (keys : a.keys = b.keys) (same : ∀ k, a.get? k = b.get? k) : a = b :=
  ext_entries (entries_eq_of_lookup a.nodup keys same)

end Assoc

end CorrelationBarrier
