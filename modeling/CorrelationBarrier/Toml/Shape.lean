import CorrelationBarrier.Decimal.Shortest
import CorrelationBarrier.Text.Quoted
import CorrelationBarrier.Toml.Document

/-!
# From TOML values to settings

* `word` — a whole number of 64 bits without sign;
* `choice` — one of several names, written as text or as a table with the name as its only key;
* `fields` — a table whose keys are settings.

`ShapeError` lists what can be wrong with a value, and `ShapeError.message` words it.
-/

namespace CorrelationBarrier.Toml

/-- What is wrong with a value of valid TOML. -/
inductive ShapeError where
  | unknownField (name : String) (known : List String)
  | unknownVariant (name : String) (known : List String)
  /-- A value of another kind than expected; `found` describes it. -/
  | wrongKind (found expected : String)
  /-- A whole number out of the range of the expected kind. -/
  | outOfRange (n : Int) (expected : String)
  /-- A whole number of more than 128 bits, or without a value. -/
  | hugeInteger
  /-- A number that is too large for binary64. -/
  | hugeReal
  /-- A name was expected, as text or as a table. -/
  | notNamed
  | noElement
  | manyElements
  /-- The table or list behind a name has to be empty. -/
  | notEmpty (kind : String)
  /-- Something else than a table or list stands behind a name. -/
  | notTable (kind : String)
  deriving DecidableEq

/-- The known names, as an error lists them. -/
def oneOf (names : List String) : String :=
  match names.map fun n => "`" ++ n ++ "`" with
  | [] => "there are none"
  | [a] => "expected " ++ a
  | [a, b] => "expected " ++ a ++ " or " ++ b
  | all => "expected one of " ++ ", ".intercalate all

/-- The wording of an error. -/
def ShapeError.message : ShapeError → String
  | .unknownField name known => "unknown field `" ++ name ++ "`, " ++ oneOf known
  | .unknownVariant name known => "unknown variant `" ++ name ++ "`, " ++ oneOf known
  | .wrongKind found expected => "invalid type: " ++ found ++ ", expected " ++ expected
  | .outOfRange n expected => "invalid value: integer `" ++ toString n ++ "`, expected " ++ expected
  | .hugeInteger => "integer number overflowed"
  | .hugeReal => "floating-point number overflowed"
  | .notNamed => "wanted string or table"
  | .noElement => "wanted exactly 1 element, found 0 elements"
  | .manyElements => "wanted exactly 1 element, more than 1 element"
  | .notEmpty kind => "expected empty " ++ kind
  | .notTable kind => "expected table, found " ++ kind

/-- The name of a value's kind. -/
def Value.kind : Value → String
  | .text _ => "string"
  | .integer _ => "integer"
  | .real _ => "float"
  | .boolean _ => "boolean"
  | .moment => "datetime"
  | .list _ _ => "array"
  | .table _ _ => "table"

/-- A power of two, as a bound for whole numbers. -/
def powerOfTwo (n : Nat) : Int := Nat.pow 2 n

/-- A whole number from zero up to `2 ^ 64 - 1`. -/
def word (expected : String) : Value → Except ShapeError Nat
  | .text s => .error (.wrongKind ("string " ++ Text.quote s) expected)
  | .integer none => .error .hugeInteger
  | .integer (some n) =>
    if 0 ≤ n ∧ n < powerOfTwo 64 then .ok n.toNat
    else if -powerOfTwo 63 ≤ n ∧ n < 0 then .error (.outOfRange n expected)
    else if -powerOfTwo 127 ≤ n ∧ n < powerOfTwo 127 then
      .error (.wrongKind ("integer `" ++ toString n ++ "` as i128") expected)
    else if 0 ≤ n ∧ n < powerOfTwo 128 then
      .error (.wrongKind ("integer `" ++ toString n ++ "` as u128") expected)
    else .error .hugeInteger
  | .real none => .error .hugeReal
  | .real (some x) => .error (.wrongKind ("floating point `" ++ x.text ++ "`") expected)
  | .boolean b => .error (.wrongKind ("boolean `" ++ (if b then "true" else "false") ++ "`") expected)
  | .moment => .error (.wrongKind "map" expected)
  | .list _ _ => .error (.wrongKind "sequence" expected)
  | .table _ _ => .error (.wrongKind "map" expected)

/-- The choice with the given name. -/
def named {α : Type} (choices : List (String × α)) (name : String) : Except ShapeError α :=
  match choices.lookup name with
  | some a => .ok a
  | none => .error (.unknownVariant name (choices.map Prod.fst))

/-- One of several names. In a table, the name is the only key and nothing stands behind it. -/
def choice {α : Type} (choices : List (String × α)) : Value → Except ShapeError α
  | .text s => named choices s
  | .table _ [] => .error .noElement
  | .table _ [(name, inside)] => do
    let a ← named choices name
    match inside with
    | .list _ items => if items.isEmpty then .ok a else .error (.notEmpty "array")
    | .table _ entries => if entries.isEmpty then .ok a else .error (.notEmpty "table")
    | other => .error (.notTable other.kind)
  | .table _ _ => .error .manyElements
  | _ => .error .notNamed

/-- A setting that a key of a table can change. -/
structure Field (σ : Type) where
  name : String
  read : Value → σ → Except ShapeError σ

/-- Changes settings by the entries of a table, in the order of the keys' code points. The first bad entry is reported. -/
def fields {σ : Type} (known : List (Field σ)) (start : σ) (entries : Entries) : Except ShapeError σ :=
  (entries.mergeSort fun p q => decide (p.1 ≤ q.1)).foldlM (fun s (k, v) =>
    match known.find? (·.name = k) with
    | some field => field.read v s
    | none => .error (.unknownField k (known.map (·.name)))) start

end CorrelationBarrier.Toml
