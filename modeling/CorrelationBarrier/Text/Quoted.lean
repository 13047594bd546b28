import CorrelationBarrier.Text.Extending
import CorrelationBarrier.Text.Invisible

/-!
# Quoted text

`quote s` writes `s` between double quotes, so that everything that does not show as itself is spelled out.
`escape_self` and `escape_code` say which characters stand for themselves.
-/

namespace CorrelationBarrier.Text

/-- The hexadecimal digits of a number, in lower case and without leading zeros. -/
def hexDigits (n : Nat) : List Char := Nat.toDigits 16 n

/-- The characters that have a short escape, each with the letter that stands for it after the backslash. -/
def shortEscapes : List (Char × Char) :=
  [('\x00', '0'), ('\t', 't'), ('\n', 'n'), ('\r', 'r'), ('"', '"'), ('\\', '\\')]

/-- How a character is written inside quotes: by its short escape, by its code point, or as itself. -/
def escape (c : Char) : List Char :=
  match shortEscapes.lookup c with
  | some letter => ['\\', letter]
  | none => if isExtending c || isInvisible c then "\\u\x7b".toList ++ hexDigits c.toNat ++ ['}'] else [c]

/-- The text between double quotes. -/
def quote (s : String) : String := String.ofList ('"' :: s.toList.flatMap escape ++ ['"'])

theorem escape_self {c : Char} (hs : shortEscapes.lookup c = none) (he : isExtending c = false)
    (hi : isInvisible c = false) : escape c = [c] := by
  simp [escape, hs, he, hi]

theorem escape_code {c : Char} (hs : shortEscapes.lookup c = none) (h : isExtending c = true ∨ isInvisible c = true) :
    escape c = "\\u\x7b".toList ++ hexDigits c.toNat ++ ['}'] := by
  have : (isExtending c || isInvisible c) = true := by simpa using h
  simp only [escape, hs, this, if_true]

end CorrelationBarrier.Text
