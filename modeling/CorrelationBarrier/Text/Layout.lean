/-!
# Values laid out as text

A `Layout` is a value written in two ways: on one line, and over several lines with one part per line, each indented
by four places and followed by a comma.
-/

namespace CorrelationBarrier

/-- A value as text: on one line, and as a block of lines. -/
structure Layout where
  line : String
  block : List String
  deriving DecidableEq

namespace Layout

/-- A value that is one word in both forms. -/
def word (text : String) : Layout := ⟨text, [text]⟩

instance : Inhabited Layout := ⟨word ""⟩

/-- A part with a label in front of it. -/
def labelled (label : String) (part : Layout) : Layout where
  line := label ++ part.line
  block := match part.block with
    | [] => [label]
    | first :: rest => (label ++ first) :: rest

/-- The lines of one part inside a block: indented, and closed by a comma. -/
def inner (part : Layout) : List String :=
  let lines := part.block.map ("    " ++ ·)
  lines.dropLast ++ (lines.getLast?.map (· ++ ",")).toList

/-- Parts between an opening and a closing text. On one line `pad` stands inside both ends. -/
def enclosed (opening closing pad : String) (parts : List Layout) : Layout where
  line := opening ++ pad ++ ", ".intercalate (parts.map (·.line)) ++ pad ++ closing
  block := [opening] ++ parts.flatMap inner ++ [closing]

/-- A record with all its fields: the name alone if there are none. -/
def record (name : String) (fields : List (String × Layout)) : Layout :=
  if fields.isEmpty then word name
  else enclosed (name ++ " \x7b") "\x7d" " " (fields.map fun f => labelled (f.1 ++ ": ") f.2)

/-- A record that shows only some of its fields, and says so by two dots at the end. -/
def openRecord (name : String) (fields : List (String × Layout)) : Layout where
  line := (enclosed (name ++ " \x7b") "\x7d" " " (fields.map (fun f => labelled (f.1 ++ ": ") f.2) ++ [word ".."])).line
  block := [name ++ " \x7b"] ++ (fields.flatMap fun f => inner (labelled (f.1 ++ ": ") f.2)) ++ ["    ..", "\x7d"]

/-- A name applied to values; with an empty name, a tuple. -/
def applied (name : String) (args : List Layout) : Layout := enclosed (name ++ "(") ")" "" args

/-- A value that may be missing. -/
def optional : Option Layout → Layout
  | none => word "None"
  | some v => applied "Some" [v]

/-- A map from keys, given as text, to values. -/
def map (pairs : List (String × Layout)) : Layout :=
  if pairs.isEmpty then word "\x7b\x7d"
  else enclosed "\x7b" "\x7d" "" (pairs.map fun p => labelled (p.1 ++ ": ") p.2)

/-- The block form as one text. -/
def blockText (v : Layout) : String := "\n".intercalate v.block

end Layout

end CorrelationBarrier
