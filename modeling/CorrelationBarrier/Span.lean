/-!
# Instants and spans of time

Both count nanoseconds. `Span.text` writes a span in the largest unit that it reaches.
-/

namespace CorrelationBarrier

/-- A point on the clock, in nanoseconds. -/
abbrev Instant := Nat

/-- A length of time, in nanoseconds. -/
abbrev Span := Nat

namespace Span

/-- A span of whole milliseconds. -/
def ofMillis (ms : Nat) : Span := ms * 1000000

/-- The time that passed since `start`; none if the clock stands before it. -/
def elapsed (start now : Instant) : Span := now - start

/-- The digits of `part` below a unit of `10 ^ width`, without the zeros at the end. -/
def fraction (width part : Nat) : String :=
  let digits := Nat.toDigits 10 part
  let padded := List.replicate (width - digits.length) '0' ++ digits
  let kept := (padded.reverse.dropWhile (· = '0')).reverse
  if kept.isEmpty then "" else "." ++ String.ofList kept

/-- The span as a decimal number of the largest unit that it reaches. -/
def text (s : Span) : String :=
  let inUnit (width : Nat) (unit : String) :=
    toString (s / Nat.pow 10 width) ++ fraction width (s % Nat.pow 10 width) ++ unit
  if 1000000000 ≤ s then inUnit 9 "s"
  else if 1000000 ≤ s then inUnit 6 "ms"
  else if 1000 ≤ s then inUnit 3 "µs"
  else toString s ++ "ns"

end Span

end CorrelationBarrier
