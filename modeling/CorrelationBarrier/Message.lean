import CorrelationBarrier.Text.Layout
import CorrelationBarrier.Text.Quoted

/-!
# Messages

A message is a payload with headers. Two messages are equal if they have the same id, whatever else they carry; `beq_iff`
says so, and equality is therefore an equivalence.
-/

namespace CorrelationBarrier

/-! ## ids -/

/-- A message id of 128 bits. -/
structure MessageId where
  high : UInt64
  low : UInt64
  deriving DecidableEq, Inhabited

namespace MessageId

/-- The id of version 4 with the given random bits. Six of the 128 bits are taken by version and variant. -/
def random (high low : UInt64) : MessageId where
  high := (high &&& 0xffffffffffff0fff) ||| 0x4000
  low := (low &&& 0x3fffffffffffffff) ||| 0x8000000000000000

/-- The version of an id. -/
def version (id : MessageId) : Nat := ((id.high >>> 12) &&& 0xf).toNat

/-- A number as `width` hexadecimal digits. -/
def hex (width n : Nat) : String :=
  let digits := Text.hexDigits n
  String.ofList (List.replicate (width - digits.length) '0' ++ digits)

/-- The id in its usual form, five groups of hexadecimal digits. -/
def text (id : MessageId) : String :=
  let h := id.high.toNat
  let l := id.low.toNat
  "-".intercalate
    [hex 8 (h / 0x100000000), hex 4 (h / 0x10000 % 0x10000), hex 4 (h % 0x10000), hex 4 (l / 0x1000000000000),
     hex 12 (l % 0x1000000000000)]

end MessageId

/-! ## headers -/

/-- What a message carries beside its payload. Attributes are kept in the order of their names. -/
structure Headers where
  id : MessageId
  timestamp : Nat := 0
  correlationId : Option String := none
  sequenceNumber : Option Nat := none
  sequenceSize : Option Nat := none
  attributes : List (String × String) := []
  deriving DecidableEq

/-- Sets a name in a list of pairs that is sorted by name. -/
def setSorted (name value : String) : List (String × String) → List (String × String)
  | [] => [(name, value)]
  | (n, v) :: rest =>
    if name < n then (name, value) :: (n, v) :: rest
    else if name = n then (name, value) :: rest
    else (n, v) :: setSorted name value rest

/-- The value of an attribute. -/
def Headers.attribute (h : Headers) (name : String) : Option String := h.attributes.lookup name

/-! ## messages -/

/-- An immutable unit of work: a payload with headers. -/
structure Message (α : Type) where
  payload : α
  headers : Headers

namespace Message

variable {α : Type}

/-- A message with a new id and no other header. -/
def new (id : MessageId) (payload : α) : Message α := ⟨payload, { id := id }⟩

/-- The id of a message. -/
def id (m : Message α) : MessageId := m.headers.id

/-- The message with a correlation id. -/
def withCorrelationId (m : Message α) (cid : String) : Message α :=
  { m with headers := { m.headers with correlationId := some cid } }

/-- The message with its place in a sequence and the size of that sequence. -/
def withSequence (m : Message α) (number size : Nat) : Message α :=
  { m with headers := { m.headers with sequenceNumber := some number, sequenceSize := some size } }

/-- The message with an attribute; an earlier value of the same name is replaced. -/
def withAttribute (m : Message α) (name value : String) : Message α :=
  { m with headers := { m.headers with attributes := setSorted name value m.headers.attributes } }

/-- Messages are equal if their ids are. -/
instance : BEq (Message α) := ⟨fun a b => a.id = b.id⟩

theorem beq_iff {a b : Message α} : (a == b) = true ↔ a.id = b.id := by
  simp [BEq.beq]

instance : EquivBEq (Message α) where
  rfl := beq_iff.2 rfl
  symm h := beq_iff.2 (beq_iff.1 h).symm
  trans h₁ h₂ := beq_iff.2 ((beq_iff.1 h₁).trans (beq_iff.1 h₂))

/-- A message as a printed value: id, correlation id and payload. -/
def layout (idText : MessageId → String) (payload : α → Layout) (m : Message α) : Layout :=
  .record "Message"
    [("id", .word (idText m.id)),
     ("correlation_id", .optional (m.headers.correlationId.map fun c => .word (Text.quote c))),
     ("payload", payload m.payload)]

end Message

end CorrelationBarrier
