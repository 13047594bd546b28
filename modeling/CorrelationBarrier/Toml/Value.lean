import CorrelationBarrier.Decimal.Binary64

/-!
# TOML values and the growth of tables

* `Value` — a TOML value; a table remembers how it came about (`Origin`), since that decides who may add to it;
* `descend` — carries a change to the table at the end of a path, creating the tables on the way;
* `insertPair`, `openTable`, `openElement` — what a `key = value` line, a `[header]` and a `[[header]]` do.

All three answer `none` where TOML forbids the change, such as a key that is there already.
-/

namespace CorrelationBarrier.Toml

/-- How a table came about. -/
inductive Origin where
  /-- It has a header of its own. -/
  | header
  /-- It lies on the way to a table with a header. -/
  | parent
  /-- It lies on the way of a dotted key. -/
  | dotted
  /-- It was written in braces, and is complete. -/
  | inline
  deriving DecidableEq

/-- A TOML value. A date or time is kept only as such, a number too large for binary64 as `real none`, and what is written
like a whole number but has no value as `integer none`. -/
inductive Value where
  | text (s : String)
  | integer (n : Option Int)
  | real (x : Option Binary64)
  | boolean (b : Bool)
  | moment
  /-- A list of values; one made of `[[header]]`s can grow. -/
  | list (grows : Bool) (items : List Value)
  | table (origin : Origin) (entries : List (String × Value))

/-- The keys of a table with their values. -/
abbrev Entries := List (String × Value)

namespace Entries

/-- The value of a key. -/
def find (k : String) : Entries → Option Value
  | [] => none
  | (j, v) :: r => if j = k then some v else find k r

/-- The table with another value at a key that is there. -/
def replace (k : String) (v : Value) : Entries → Entries
  | [] => []
  | (j, w) :: r => if j = k then (j, v) :: r else (j, w) :: replace k v r

/-- Carries `f` to the table at the end of the path. A dotted key adds only to tables that dotted keys made, and does not
pass through one with a header, the last element of a list of tables aside. A table in braces is closed to all. -/
def descend (dotted : Bool) (f : Entries → Option Entries) : List String → Entries → Option Entries
  | [], es => f es
  | k :: path, es =>
    match find k es with
    | none => do
      let t ← descend dotted f path []
      return es ++ [(k, .table (if dotted then .dotted else .parent) t)]
    | some (.table origin t) => do
      if origin = .inline ∨ (dotted ∧ origin = .header) ∨ (dotted ∧ path.isEmpty ∧ origin ≠ .dotted) then none
      let t ← descend dotted f path t
      return replace k (.table origin t) es
    | some (.list true items) =>
      match items.reverse with
      | .table origin t :: before => do
        if dotted ∧ path.isEmpty then none
        let t ← descend dotted f path t
        return replace k (.list true (before.reverse ++ [.table origin t])) es
      | _ => none
    | some _ => none

/-- Adds a value under a dotted key. -/
def insertPair (parents : List String) (k : String) (v : Value) (es : Entries) : Option Entries :=
  descend true (fun t => if (find k t).isSome then none else some (t ++ [(k, v)])) parents es

/-- Opens the table with the given path, which must not have been written before. -/
def openTable (parents : List String) (k : String) (es : Entries) : Option Entries :=
  descend false (fun t => match find k t with
    | none => some (t ++ [(k, .table .header [])])
    | some (.table .parent inside) => some (replace k (.table .header inside) t)
    | some _ => none) parents es

/-- Adds an element to the list of tables with the given path. -/
def openElement (parents : List String) (k : String) (es : Entries) : Option Entries :=
  descend false (fun t => match find k t with
    | none => some (t ++ [(k, .list true [.table .header []])])
    | some (.list true items) => some (replace k (.list true (items ++ [.table .header []])) t)
    | some _ => none) parents es

end Entries

end CorrelationBarrier.Toml
