import CorrelationBarrier.Toml.Value

/-!
# Strings, numbers, dates and times of TOML 1.1

A reader takes the characters that are left and answers a value with the characters after it. A value without quotes and
brackets is a word (`splitWord`), and `word?` decides what it means: a truth value, a number, a date or a time.

A word that is meant as a whole number need not be one: `0x` and `1_0ms` are integers without a value, and only a reader
of the value will complain.
-/

namespace CorrelationBarrier.Toml

/-! ## characters -/

/-- Space and tab. -/
def isBlank (c : Char) : Bool := c = ' ' || c = '\t'

/-- Whether a character may stand in strings and comments: all but the control characters other than tab. -/
def isPlain (c : Char) : Bool := c = '\t' || (0x20 ≤ c.toNat && c.toNat ≠ 0x7f)

/-- The characters after the blanks at the front. -/
def skipBlanks (cs : List Char) : List Char := cs.dropWhile isBlank

/-- The characters after a line end at the front: a line feed, or carriage return and line feed. -/
def newline? : List Char → Option (List Char)
  | '\n' :: r => some r
  | '\r' :: '\n' :: r => some r
  | _ => none

/-- Skips blanks, line ends and comments. A comment runs to the end of its line and holds plain characters only. -/
def skipLines : (inComment : Bool) → List Char → Option (List Char)
  | _, [] => some []
  | _, '\n' :: r => skipLines false r
  | _, '\r' :: '\n' :: r => skipLines false r
  | true, c :: r => if isPlain c then skipLines true r else none
  | false, '#' :: r => skipLines true r
  | false, c :: r => if isBlank c then skipLines false r else some (c :: r)

/-- Skips what may follow on a line: blanks, a comment, and then the line end, unless the text ends there. -/
def endLine : (inComment : Bool) → List Char → Option (List Char)
  | _, [] => some []
  | _, '\n' :: r => some r
  | _, '\r' :: '\n' :: r => some r
  | true, c :: r => if isPlain c then endLine true r else none
  | false, '#' :: r => endLine true r
  | false, c :: r => if isBlank c then endLine false r else none

/-! ## strings -/

/-- The value of a hexadecimal digit. -/
def hexValue (c : Char) : Option Nat :=
  if '0' ≤ c ∧ c ≤ '9' then some (c.toNat - '0'.toNat)
  else if 'a' ≤ c ∧ c ≤ 'f' then some (c.toNat - 'a'.toNat + 10)
  else if 'A' ≤ c ∧ c ≤ 'F' then some (c.toNat - 'A'.toNat + 10)
  else none

/-- The character with the code point written in hexadecimal digits, if there is one. -/
def codePoint (digits : List Char) : Option Char := do
  let values ← digits.mapM hexValue
  let n := values.foldl (fun acc d => 16 * acc + d) 0
  if n.isValidChar then some (Char.ofNat n) else none

/-- Reads the rest of an escape, after its backslash. -/
def unescape : List Char → Option (Char × List Char)
  | 'x' :: a :: b :: r => (codePoint [a, b]).map (·, r)
  | 'u' :: a :: b :: c :: d :: r => (codePoint [a, b, c, d]).map (·, r)
  | 'U' :: a :: b :: c :: d :: e :: f :: g :: h :: r => (codePoint [a, b, c, d, e, f, g, h]).map (·, r)
  | c :: r =>
    ([('b', '\x08'), ('t', '\t'), ('n', '\n'), ('f', '\x0c'), ('r', '\r'), ('e', '\x1b'), ('"', '"'),
      ('\\', '\\')].lookup c).map (·, r)
  | [] => none

theorem unescape_shortens {cs r : List Char} {c : Char} (h : unescape cs = some (c, r)) : r.length < cs.length := by
  unfold unescape at h
  split at h <;> simp at h <;> (obtain ⟨_, _, _, rfl⟩ := h; simp; try omega)

/-- Reads a string in double quotes, after the opening quote. -/
def basicText (cs : List Char) : Option (List Char × List Char) :=
  match cs with
  | [] => none
  | '"' :: r => some ([], r)
  | '\\' :: r =>
    match _h : unescape r with
    | none => none
    | some (c, r') => (basicText r').map fun (s, rest) => (c :: s, rest)
  | c :: r => if isPlain c then (basicText r).map fun (s, rest) => (c :: s, rest) else none
termination_by cs.length
decreasing_by
  · have := unescape_shortens _h; simp; omega
  · simp

/-- Reads a string in single quotes, after the opening quote. Nothing is escaped in it. -/
def literalText : List Char → Option (List Char × List Char)
  | [] => none
  | '\'' :: r => some ([], r)
  | c :: r => if isPlain c then (literalText r).map fun (s, rest) => (c :: s, rest) else none

/-- The characters after blanks and line ends. -/
def skipSpace : List Char → List Char
  | '\n' :: r => skipSpace r
  | '\r' :: '\n' :: r => skipSpace r
  | c :: r => if isBlank c then skipSpace r else c :: r
  | [] => []

theorem skipSpace_length (cs : List Char) : (skipSpace cs).length ≤ cs.length := by
  fun_induction skipSpace cs <;> simp <;> omega

/-- Reads a string in three double quotes, after the opening ones. Up to two quotes may stand before the closing ones,
and a backslash at the end of a line joins it to the next text. -/
def longText (cs : List Char) : Option (List Char × List Char) :=
  match cs with
  | [] => none
  | '"' :: '"' :: '"' :: '"' :: '"' :: r => some (['"', '"'], r)
  | '"' :: '"' :: '"' :: '"' :: r => some (['"'], r)
  | '"' :: '"' :: '"' :: r => some ([], r)
  | '\\' :: r =>
    match _h : unescape r with
    | some (c, r') => (longText r').map fun (s, rest) => (c :: s, rest)
    | none => if (newline? (skipBlanks r)).isSome then longText (skipSpace r) else none
  | '\n' :: r => (longText r).map fun (s, rest) => ('\n' :: s, rest)
  | '\r' :: '\n' :: r => (longText r).map fun (s, rest) => ('\r' :: '\n' :: s, rest)
  | c :: r => if isPlain c then (longText r).map fun (s, rest) => (c :: s, rest) else none
termination_by cs.length
decreasing_by
  · have := unescape_shortens _h; simp; omega
  · have := skipSpace_length r; simp only [List.length_cons]; omega
  · simp only [List.length_cons]; omega
  · simp only [List.length_cons]; omega
  · simp only [List.length_cons]; omega

/-- Reads a string in three single quotes, after the opening ones. -/
def longLiteral : List Char → Option (List Char × List Char)
  | [] => none
  | '\'' :: '\'' :: '\'' :: '\'' :: '\'' :: r => some (['\'', '\''], r)
  | '\'' :: '\'' :: '\'' :: '\'' :: r => some (['\''], r)
  | '\'' :: '\'' :: '\'' :: r => some ([], r)
  | '\n' :: r => (longLiteral r).map fun (s, rest) => ('\n' :: s, rest)
  | '\r' :: '\n' :: r => (longLiteral r).map fun (s, rest) => ('\r' :: '\n' :: s, rest)
  | c :: r => if isPlain c then (longLiteral r).map fun (s, rest) => (c :: s, rest) else none

/-- A line end right after three opening quotes does not belong to the string. -/
def dropFirstNewline (cs : List Char) : List Char := (newline? cs).getD cs

/-! ## numbers -/

/-- Whether every underscore stands behind a digit and before one. -/
def underscoresFit (isDigit : Char → Bool) : (afterDigit : Bool) → List Char → Bool
  | _, [] => true
  | _, ['_'] => false
  | afterDigit, '_' :: c :: r => afterDigit && isDigit c && underscoresFit isDigit false (c :: r)
  | _, c :: r => underscoresFit isDigit (isDigit c) r

/-- The characters other than underscores. -/
def withoutUnderscores (cs : List Char) : List Char := cs.filter (· ≠ '_')

/-- The value of digits in a base up to sixteen. -/
def number (base : Nat) (digits : List Char) : Nat :=
  digits.foldl (fun acc c => base * acc + (hexValue c).getD 0) 0

/-- A sign at the front, and the characters after it. -/
def splitSign : List Char → Option Char × List Char
  | '-' :: r => (some '-', r)
  | '+' :: r => (some '+', r)
  | cs => (none, cs)

/-- A number with the given sign. -/
def signed (sign : Option Char) (n : Nat) : Int := if sign = some '-' then -(n : Int) else n

/-- Whether a character is a hexadecimal digit. -/
def isHexDigit (c : Char) : Bool := (hexValue c).isSome

/-- The whole number behind the mark of a base. The mark alone is an integer without a value. -/
def marked? (base : Nat) (isDigit : Char → Bool) (cs : List Char) : Option (Option Int) :=
  let digits := withoutUnderscores cs
  if underscoresFit isDigit false cs && digits.all isDigit then
    some (if digits.isEmpty then none else some (number base digits))
  else none

/-- A whole number in decimal digits. What has an underscore behind its first digits is meant to be one; it has a value
only if nothing but digits stands there. -/
def decimal? (cs : List Char) : Option (Option Int) :=
  let (sign, body) := splitSign cs
  let leadingZero := body.head? = some '0'
  match body.dropWhile Char.isDigit with
  | [] => if body.isEmpty ∨ (leadingZero ∧ 1 < body.length) then none else some (some (signed sign (number 10 body)))
  | '_' :: r =>
    let meansOther (c : Char) : Bool := c = '.' || c = 'e' || c = 'E' || c = ' '
    if leadingZero ∨ r.any meansOther ∨ ¬ underscoresFit isHexDigit false body then none
    else
      let digits := withoutUnderscores body
      some (if digits.all Char.isDigit then some (signed sign (number 10 digits)) else none)
  | _ => none

/-- What is written as a whole number, with its value if it has one. -/
def integer? : List Char → Option (Option Int)
  | '0' :: 'x' :: r => marked? 16 isHexDigit r
  | '0' :: 'o' :: r => marked? 8 (fun c => '0' ≤ c && c ≤ '7') r
  | '0' :: 'b' :: r => marked? 2 (fun c => c = '0' || c = '1') r
  | cs => decimal? cs

/-- Digits at the front, at least one, and the characters after them. -/
def digits? (cs : List Char) : Option (List Char × List Char) :=
  let digits := cs.takeWhile Char.isDigit
  if digits.isEmpty then none else some (digits, cs.dropWhile Char.isDigit)

/-- The digits of a fraction, and the characters after it; none if there is no point. -/
def fraction? : List Char → Option (List Char × List Char)
  | '.' :: r => digits? r
  | cs => some ([], cs)

/-- The power of ten in an exponent; zero if there is no exponent. Nothing may follow. -/
def exponent? : List Char → Option Int
  | [] => some 0
  | mark :: r =>
    let (sign, body) := splitSign r
    match digits? body with
    | some (digits, []) => if mark = 'e' ∨ mark = 'E' then some (signed sign (number 10 digits)) else none
    | _ => none

/-- A number with a fraction, an exponent or both, or one of the words for infinity and not-a-number. -/
def real? (cs : List Char) : Option (Option Binary64) :=
  let (sign, body) := splitSign cs
  let negative := sign = some '-'
  if body = ['i', 'n', 'f'] then some (some (.infinite negative))
  else if body = ['n', 'a', 'n'] then some (some .notANumber)
  else do
    guard (underscoresFit Char.isDigit false body)
    let (whole, rest) ← digits? (withoutUnderscores body)
    guard (!rest.isEmpty && !(body.head? = some '0' && 1 < whole.length))
    let (part, rest) ← fraction? rest
    let power ← exponent? rest
    return Binary64.ofDecimal? negative (number 10 (whole ++ part)) (power - part.length)

/-! ## dates and times -/

/-- The value of exactly `n` decimal digits. -/
def fixedDigits (n : Nat) (cs : List Char) : Option Nat :=
  if cs.length = n ∧ cs.all Char.isDigit then some (number 10 cs) else none

/-- The days of a month. -/
def daysInMonth (year month : Nat) : Nat :=
  if month = 2 then (if (year % 4 = 0 ∧ year % 100 ≠ 0) ∨ year % 400 = 0 then 29 else 28)
  else if month = 4 ∨ month = 6 ∨ month = 9 ∨ month = 11 then 30
  else 31

/-- Whether the characters are a date, year first. -/
def isDate : List Char → Bool
  | [y1, y2, y3, y4, '-', m1, m2, '-', d1, d2] =>
    match fixedDigits 4 [y1, y2, y3, y4], fixedDigits 2 [m1, m2], fixedDigits 2 [d1, d2] with
    | some y, some m, some d => 1 ≤ m && m ≤ 12 && 1 ≤ d && d ≤ daysInMonth y m
    | _, _, _ => false
  | _ => false

/-- Whether the characters are hours and minutes. -/
def isHourMinute : List Char → Bool
  | [h1, h2, ':', m1, m2] =>
    match fixedDigits 2 [h1, h2], fixedDigits 2 [m1, m2] with
    | some h, some m => h ≤ 23 && m ≤ 59
    | _, _ => false
  | _ => false

/-- Whether the characters are a time of day. The seconds and their fraction may be left out; a minute may have a leap
second. -/
def isTime (cs : List Char) : Bool :=
  isHourMinute (cs.take 5) &&
  match cs.drop 5 with
  | [] => true
  | ':' :: s1 :: s2 :: rest =>
    ((fixedDigits 2 [s1, s2]).any (· ≤ 60)) &&
    match rest with
    | [] => true
    | '.' :: digits => !digits.isEmpty && digits.all Char.isDigit
    | _ => false
  | _ => false

/-- Whether the characters are a distance from universal time, or nothing. -/
def isOffset : List Char → Bool
  | [] => true
  | ['Z'] => true
  | ['z'] => true
  | '+' :: r => isHourMinute r
  | '-' :: r => isHourMinute r
  | _ => false

/-- Whether the characters are a date, a time, or both, the latter with or without an offset. -/
def isMoment (cs : List Char) : Bool :=
  isDate cs || isTime cs ||
  (isDate (cs.take 10) &&
    match cs.drop 10 with
    | sep :: r =>
      let beforeOffset (c : Char) : Bool := c ≠ 'Z' && c ≠ 'z' && c ≠ '+' && c ≠ '-'
      (sep = 'T' || sep = 't' || sep = ' ') && isTime (r.takeWhile beforeOffset) && isOffset (r.dropWhile beforeOffset)
    | [] => false)

/-! ## words -/

/-- Whether a character ends an atom. Quotes do not. -/
def endsAtom (c : Char) : Bool :=
  [' ', '\t', '\n', '\r', '#', '.', ',', '=', '[', ']', '\x7b', '\x7d'].contains c

/-- Whether a character begins an atom. -/
def startsAtom (c : Char) : Bool := !endsAtom c && c ≠ '"' && c ≠ '\''

/-- Splits a word off the front. A word is made of atoms and dots; blanks belong to it if an atom follows them. -/
def splitWord : (inAtom : Bool) → List Char → List Char × List Char
  | _, [] => ([], [])
  | inAtom, c :: r =>
    let belongs :=
      if isBlank c then (skipBlanks r).head?.any startsAtom
      else c = '.' || startsAtom c || (inAtom && !endsAtom c)
    if belongs then
      let (word, rest) := splitWord (!endsAtom c) r
      (c :: word, rest)
    else ([], c :: r)

/-- The value that a word stands for. -/
def word? (cs : List Char) : Option Value :=
  if cs = ['t', 'r', 'u', 'e'] then some (.boolean true)
  else if cs = ['f', 'a', 'l', 's', 'e'] then some (.boolean false)
  else if isMoment cs then some .moment
  else match integer? cs with
    | some n => some (.integer n)
    | none => (real? cs).map .real

/-- Reads a word. -/
def readWord (cs : List Char) : Option (Value × List Char) :=
  let (word, rest) := splitWord false cs
  (word? word).map (·, rest)

end CorrelationBarrier.Toml
