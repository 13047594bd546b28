/-!
# Decimal numbers rounded to binary64

A finite binary64 number is `± significand * 2 ^ exponent`. `Binary64.ofDecimal?` takes the one nearest to
`digits * 10 ^ power`, of two equally near ones the one with an even significand, and answers `none` where that one
would be too large.
-/

namespace CorrelationBarrier

/-- A binary64 number. A finite one has a significand below `2 ^ 53` and an exponent of at least `-1074`. -/
inductive Binary64 where
  | finite (negative : Bool) (significand : Nat) (exponent : Int)
  | infinite (negative : Bool)
  | notANumber
  deriving DecidableEq

namespace Binary64

/-- `num / den` rounded to a whole number; a tie goes to the even one. -/
def roundDiv (num den : Nat) : Nat :=
  let q := num / den
  let twice := 2 * (num % den)
  if twice < den ∨ (twice = den ∧ q % 2 = 0) then q else q + 1

/-- A fraction `num * b ^ power` as numerator and denominator. -/
def scaled (b num : Nat) (power : Int) : Nat × Nat :=
  if 0 ≤ power then (num * Nat.pow b power.toNat, 1) else (num, Nat.pow b (-power).toNat)

/-- The least exponent. -/
def leastExponent : Int := -1074

/-- The number nearest to `num / den`, as significand and exponent, if it is not too large. -/
def ofFraction? (num den : Nat) : Option (Nat × Int) :=
  let guess : Int := max ((num.log2 : Int) - (den.log2 : Int) - 53) leastExponent
  let divided (e : Int) : Nat × Nat :=
    if 0 ≤ e then (num, den * Nat.pow 2 e.toNat) else (num * Nat.pow 2 (-e).toNat, den)
  let (n, d) := divided guess
  let e := if n / d < Nat.pow 2 53 then guess else guess + 1
  let (n, d) := divided e
  let s := roundDiv n d
  let (s, e) := if s = Nat.pow 2 53 then (Nat.pow 2 52, e + 1) else (s, e)
  if 971 < e then none else some (s, e)

/-- The number nearest to `± digits * 10 ^ power`, if it is not too large. -/
def ofDecimal? (negative : Bool) (digits : Nat) (power : Int) : Option Binary64 :=
  let places : Int := power + (Nat.toDigits 10 digits).length
  if digits = 0 ∨ places < -330 then some (.finite negative 0 leastExponent)
  else if 330 < places then none
  else
    let (num, den) := scaled 10 digits power
    (ofFraction? num den).map fun (s, e) => .finite negative s e

end Binary64

end CorrelationBarrier
