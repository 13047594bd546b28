import CorrelationBarrier.Decimal.Binary64

/-!
# The shortest decimal text of a binary64 number

`shortest s e` is the decimal number with the fewest digits that still rounds to `s * 2 ^ e`, of these the nearest one.
`Binary64.text` writes it without an exponent and always with a point.
-/

namespace CorrelationBarrier

namespace Binary64

/-- The reals that round to `s * 2 ^ e`, as the two ends over `4 * 2 ^ (e - 2)`: the number itself is `4 * s`. -/
def lowerEnd (s : Nat) (e : Int) : Nat := if s = Nat.pow 2 52 ∧ leastExponent < e then 4 * s - 1 else 4 * s - 2

/-- The upper end of the reals that round to the number, in the same unit. -/
def upperEnd (s : Nat) : Nat := 4 * s + 2

/-- Whether `c * 10 ^ k` rounds to the number `s * 2 ^ e`. The ends belong to it if `s` is even. -/
def roundsTo (s : Nat) (e : Int) (c : Nat) (k : Int) : Bool :=
  let (cn, cd) := scaled 10 c k
  let (un, ud) := scaled 2 1 (e - 2)
  -- compares `cn / cd` with `x * un / ud`
  let left := cn * ud
  let right (x : Nat) := x * un * cd
  if s % 2 = 0 then right (lowerEnd s e) ≤ left && left ≤ right (upperEnd s)
  else right (lowerEnd s e) < left && left < right (upperEnd s)

/-- The decimal exponent `p` with `10 ^ (p - 1) ≤ num / den < 10 ^ p`. -/
def magnitude (num den : Nat) : Int :=
  let guess : Int := (Nat.toDigits 10 num).length - (Nat.toDigits 10 den).length
  let (a, b) := scaled 10 1 guess
  if num * b < a * den then guess else guess + 1

/-- Of the two neighbours of `s * 2 ^ e` on the grid of `10 ^ k`, the nearer one that rounds to it; of two equally near
ones the upper. -/
def onGrid (s : Nat) (e k : Int) : Option Nat :=
  let (n, d) := scaled 2 s e
  let (g, h) := scaled 10 1 k
  let num := n * h
  let den := d * g
  let low := num / den
  let nearLow := 2 * (num % den) < den
  let fits (c : Nat) := roundsTo s e c k
  match fits low, fits (low + 1) with
  | true, true => some (if nearLow then low else low + 1)
  | true, false => some low
  | false, true => some (low + 1)
  | false, false => none

/-- The first grid with a hit, from `count` digits on. -/
def searchGrid (s : Nat) (e top : Int) : Nat → Nat → Nat × Int
  | 0, count =>
    let k := top - count
    ((onGrid s e k).getD 0, k)
  | fuel + 1, count =>
    let k := top - count
    match onGrid s e k with
    | some c => (c, k)
    | none => searchGrid s e top fuel (count + 1)

/-- The decimal `c * 10 ^ k` with the fewest digits that rounds to `s * 2 ^ e`. Seventeen digits always do. -/
def shortest (s : Nat) (e : Int) : Nat × Int :=
  let (n, d) := scaled 2 s e
  searchGrid s e (magnitude n d) 17 1

/-- `c * 10 ^ k` written without an exponent, with a point and at least one digit on both sides of it. -/
def positional (c : Nat) (k : Int) : String :=
  let digits := Nat.toDigits 10 c
  if 0 ≤ k then String.ofList (digits ++ List.replicate k.toNat '0') ++ ".0"
  else
    let places := (-k).toNat
    let padded := List.replicate (places + 1 - digits.length) '0' ++ digits
    let whole := padded.take (padded.length - places)
    let part := ((padded.drop (padded.length - places)).reverse.dropWhile (· = '0')).reverse
    String.ofList whole ++ "." ++ (if part.isEmpty then "0" else String.ofList part)

/-- The number as decimal text. -/
def text : Binary64 → String
  | .finite negative s e =>
    let (c, k) := if s = 0 then (0, 0) else shortest s e
    (if negative then "-" else "") ++ positional c k
  | .infinite negative => if negative then "-inf" else "inf"
  | .notANumber => "NaN"

end Binary64

end CorrelationBarrier
