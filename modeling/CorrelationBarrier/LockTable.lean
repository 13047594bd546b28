import CorrelationBarrier.Assoc
import CorrelationBarrier.Policy
import CorrelationBarrier.Text.Layout

/-!
# The lock table

A table from keys to tokens. A token is an instance with a number of its own (`TokenId`): it can be held by one section at
a time, and once it is retired it stays so. `acquire` makes a fresh token for a key without entry, and `unlink` removes an
entry only if it is the given instance.

Every function here is one atomic access; `Program` and `Machine` say how threads combine them.
-/

namespace CorrelationBarrier

/-- The number of a token instance; no number is used twice. -/
abbrev TokenId := Nat

/-- The mutual-exclusion handle of a key. -/
structure Token where
  /-- Whether the token was forgotten. -/
  retired : Bool := false
  /-- Whether some section holds the token. -/
  held : Bool := false
  deriving DecidableEq, Inhabited

/-- The current tokens of the keys, and the state of every token ever made. -/
structure LockTable (K : Type) where
  policy : TokenPolicy
  entries : Assoc K TokenId := Assoc.empty
  /-- The token with number `i` stands at place `i`. -/
  tokens : List Token := []

namespace LockTable

variable {K : Type}

/-- The table without keys. -/
def new (policy : TokenPolicy) : LockTable K := { policy := policy }

/-- The keys with a token, in the order of the table. -/
def keys (t : LockTable K) : List K := t.entries.keys

/-- The number of keys with a token. -/
def size (t : LockTable K) : Nat := t.entries.size

/-- Whether no key has a token. -/
def isEmpty (t : LockTable K) : Bool := t.size = 0

/-- The state of a token. -/
def token (t : LockTable K) (i : TokenId) : Token := t.tokens.getD i {}

/-- Changes the state of a token. -/
def setToken (t : LockTable K) (i : TokenId) (f : Token → Token) : LockTable K :=
  { t with tokens := t.tokens.set i (f (t.token i)) }

/-- Takes hold of a token. -/
def hold (t : LockTable K) (i : TokenId) : LockTable K := t.setToken i fun s => { s with held := true }

/-- Lets go of a token. -/
def release (t : LockTable K) (i : TokenId) : LockTable K := t.setToken i fun s => { s with held := false }

/-- Retires a token. -/
def retire (t : LockTable K) (i : TokenId) : LockTable K := t.setToken i fun s => { s with retired := true }

/-- Whether a section that got hold of the token has to let go of it and start again. -/
def rejects (t : LockTable K) (i : TokenId) : Bool := (t.token i).retired && t.policy = .validated

variable [DecidableEq K]

/-- The current token of a key. -/
def current (t : LockTable K) (k : K) : Option TokenId := t.entries.get? k

/-- The current token of a key; a fresh one if there is none. -/
def acquire (t : LockTable K) (k : K) : TokenId × LockTable K :=
  match t.current k with
  | some i => (i, t)
  | none => (t.tokens.length, { t with entries := t.entries.set k t.tokens.length, tokens := t.tokens ++ [{}] })

/-- Removes the entry of a key if it is the token `i`, and says whether it was. -/
def unlink (t : LockTable K) (k : K) (i : TokenId) : Bool × LockTable K :=
  if t.current k = some i then (true, { t with entries := t.entries.erase k }) else (false, t)

/-! ## what the accesses do to the entries -/

theorem current_acquire (t : LockTable K) (k : K) : (t.acquire k).2.current k = some (t.acquire k).1 := by
  unfold acquire
  split
  · assumption
  · simp [current, Assoc.get?_set]

theorem current_acquire_of_ne {t : LockTable K} {k j : K} (h : k ≠ j) :
    (t.acquire k).2.current j = t.current j := by
  unfold acquire
  split
  · rfl
  · simp [current, Assoc.get?_set, h]

theorem current_unlink (t : LockTable K) (k j : K) (i : TokenId) :
    (t.unlink k i).2.current j = if t.current k = some i ∧ k = j then none else t.current j := by
  unfold unlink
  by_cases h : t.current k = some i
  · simp only [h, if_true, true_and]
    exact Assoc.get?_erase t.entries k j
  · simp [h]

theorem unlink_eq_true_iff (t : LockTable K) (k : K) (i : TokenId) :
    (t.unlink k i).1 = true ↔ t.current k = some i := by
  unfold unlink
  split <;> simp_all

/-! ## printed values -/

/-- A token as a printed value. The state of a held token is not shown. -/
def tokenLayout (s : Token) : Layout :=
  .record "Token"
    [("state", .record "Mutex"
      [("data", if s.held then .word "<locked>"
        else .record "TokenState" [("retired", .word (if s.retired then "true" else "false"))])])]

/-- The table as a printed value. -/
def layout (keyText : K → String) (t : LockTable K) : Layout :=
  .record "LockTable"
    [("policy", .word t.policy.name),
     ("tokens", .record "Mutex"
       [("data", .map (t.entries.entries.map fun (k, i) => (keyText k, tokenLayout (t.token i))))])]

end LockTable

end CorrelationBarrier
