import CorrelationBarrier.Toml.Scalar

/-!
# TOML documents

`Document.read` reads a text as TOML 1.1: `none` if it is not valid, keys written twice included. A document is a list of
lines (`Line`), and `Line.apply` says what each of them adds to the table read so far.
-/

namespace CorrelationBarrier.Toml

/-! ## keys -/

/-- Whether a character may stand in a key without quotes. -/
def isBare (c : Char) : Bool := c.isAlphanum || c = '_' || c = '-'

/-- Reads one part of a key. -/
def readKeyPart : List Char → Option (String × List Char)
  | '"' :: r => (basicText r).map fun (s, rest) => (String.ofList s, rest)
  | '\'' :: r => (literalText r).map fun (s, rest) => (String.ofList s, rest)
  | cs =>
    let part := cs.takeWhile isBare
    if part.isEmpty then none else some (String.ofList part, cs.dropWhile isBare)

/-- The most parts of a key. -/
def maxParts : Nat := 80

/-- Reads a key of at most `fuel` parts with dots between them, and the blanks after it. -/
def readKey : (fuel : Nat) → List Char → Option (List String × List Char)
  | 0, _ => none
  | fuel + 1, cs => do
    let (part, rest) ← readKeyPart (skipBlanks cs)
    match skipBlanks rest with
    | '.' :: r => (readKey fuel r).map fun (parts, after) => (part :: parts, after)
    | after => some ([part], after)

/-- The parts before the last one, and the last one. -/
def splitKey : List String → Option (List String × String)
  | [] => none
  | [k] => some ([], k)
  | k :: ks => (splitKey ks).map fun (parents, last) => (k :: parents, last)

/-! ## values -/

/-- How many lists and braces may lie inside each other. -/
def maxDepth : Nat := 80

mutual

/-- Reads a value that lies inside `depth` lists and braces. Each call spends one unit of fuel. -/
def readValue : (fuel depth : Nat) → List Char → Option (Value × List Char)
  | 0, _, _ => none
  | fuel + 1, depth, cs =>
    match cs with
    | '"' :: '"' :: '"' :: r => (longText (dropFirstNewline r)).map fun (s, rest) => (.text (String.ofList s), rest)
    | '"' :: r => (basicText r).map fun (s, rest) => (.text (String.ofList s), rest)
    | '\'' :: '\'' :: '\'' :: r =>
      (longLiteral (dropFirstNewline r)).map fun (s, rest) => (.text (String.ofList s), rest)
    | '\'' :: r => (literalText r).map fun (s, rest) => (.text (String.ofList s), rest)
    | '[' :: r => if depth < maxDepth then readItems fuel (depth + 1) [] r else none
    | '\x7b' :: r => if depth < maxDepth then readPairs fuel (depth + 1) [] r else none
    | _ => readWord cs

/-- Reads the items of a list up to its closing bracket. -/
def readItems : (fuel depth : Nat) → (before : List Value) → List Char → Option (Value × List Char)
  | 0, _, _, _ => none
  | fuel + 1, depth, before, cs => do
    match ← skipLines false cs with
    | ']' :: r => some (.list false before, r)
    | cs =>
      let (v, rest) ← readValue fuel depth cs
      match ← skipLines false rest with
      | ',' :: r => readItems fuel depth (before ++ [v]) r
      | ']' :: r => some (.list false (before ++ [v]), r)
      | _ => none

/-- Reads the pairs of a table up to its closing brace. Line ends may stand everywhere but inside a key. -/
def readPairs : (fuel depth : Nat) → (before : Entries) → List Char → Option (Value × List Char)
  | 0, _, _, _ => none
  | fuel + 1, depth, before, cs => do
    match ← skipLines false cs with
    | '\x7d' :: r => some (.table .inline before, r)
    | cs =>
      let (path, rest) ← readKey maxParts cs
      let (parents, k) ← splitKey path
      match ← skipLines false rest with
      | '=' :: r =>
        let (v, rest) ← readValue fuel depth (← skipLines false r)
        let entries ← Entries.insertPair parents k v before
        match ← skipLines false rest with
        | ',' :: r => readPairs fuel depth entries r
        | '\x7d' :: r => some (.table .inline entries, r)
        | _ => none
      | _ => none

end

/-! ## lines -/

/-- A line of a document with something on it. -/
inductive Line where
  | pair (parents : List String) (key : String) (value : Value)
  | header (parents : List String) (key : String)
  | element (parents : List String) (key : String)

/-- Reads a line, blanks and empty lines in front of it already skipped. -/
def readLine (cs : List Char) : Option (Line × List Char) :=
  match cs with
  | '[' :: '[' :: r => do
    let (path, rest) ← readKey maxParts r
    let (parents, k) ← splitKey path
    match rest with
    | ']' :: ']' :: r => (endLine false r).map fun after => (.element parents k, after)
    | _ => none
  | '[' :: r => do
    let (path, rest) ← readKey maxParts r
    let (parents, k) ← splitKey path
    match rest with
    | ']' :: r => (endLine false r).map fun after => (.header parents k, after)
    | _ => none
  | _ => do
    let (path, rest) ← readKey maxParts cs
    let (parents, k) ← splitKey path
    match rest with
    | '=' :: r =>
      let (v, rest) ← readValue (r.length + 1) 0 (skipBlanks r)
      (endLine false rest).map fun after => (.pair parents k v, after)
    | _ => none

/-- Reads at most `fuel` lines, up to the end of the text. -/
def readLines : (fuel : Nat) → List Char → Option (List Line)
  | 0, _ => none
  | fuel + 1, cs => do
    match ← skipLines false cs with
    | [] => some []
    | cs =>
      let (line, rest) ← readLine cs
      (readLines fuel rest).map (line :: ·)

/-- A table under construction: the header in force, and the entries so far. -/
structure Draft where
  header : List String := []
  entries : Entries := []

/-- Adds a line to the table under construction. -/
def Line.apply (draft : Draft) : Line → Option Draft
  | .pair parents k v => do
    let entries ← Entries.descend false (Entries.insertPair parents k v) draft.header draft.entries
    return { draft with entries := entries }
  | .header parents k => do
    let entries ← Entries.openTable parents k draft.entries
    return { header := parents ++ [k], entries := entries }
  | .element parents k => do
    let entries ← Entries.openElement parents k draft.entries
    return { header := parents ++ [k], entries := entries }

/-- Drops the mark that may stand in front of a text to tell its byte order. -/
def dropByteOrderMark : List Char → List Char
  | '\uFEFF' :: r => r
  | cs => cs

/-- The table that a text describes, if it is valid TOML. -/
def Document.read (text : String) : Option Entries := do
  let cs := dropByteOrderMark text.toList
  let lines ← readLines (cs.length + 1) cs
  let draft ← lines.foldlM Line.apply {}
  return draft.entries

end CorrelationBarrier.Toml
