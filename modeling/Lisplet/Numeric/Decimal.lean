import Lisplet.Numeric.Floating

/-!
Decimal numbers and their digits.

A `Decimal` is a natural number of digits and a power of ten. Decimals are read into a floating-point
format by one rounding, and quotients are turned into decimals with a given number of significant
digits.

* `Decimal.nearest`: the decimal of `count` significant digits nearest to a quotient.
* `Decimal.shortest`: the shortest decimal that reads back as a given code, the nearest one of those.
* `Decimal.positional`: digits around a point, with at least one digit on either side.
* `Decimal.scientific`: one digit in front of the point and a power of ten.
-/

namespace Lisplet

/-- The number `digits * 10 ^ exponent`. -/
structure Decimal where
  digits : Nat
  exponent : Int
  deriving DecidableEq, Repr

/-- The number of decimal digits of a natural number; zero has none. -/
def digitCount (number : Nat) : Nat :=
  if number = 0 then 0 else digitCount (number / 10) + 1
termination_by number
decreasing_by omega

/-- The power of ten of the leading digit of a positive quotient. -/
def leadingExponent (numerator denominator : Nat) : Int :=
  if denominator ≤ numerator then (digitCount (numerator / denominator) : Int) - 1
  else -(digitCount ((denominator - 1) / numerator) : Int)

namespace Decimal

/-- The numerator of a decimal as a quotient of natural numbers. -/
def numerator (decimal : Decimal) : Nat :=
  decimal.digits * Nat.pow 10 decimal.exponent.toNat

/-- The denominator of a decimal as a quotient of natural numbers. -/
def denominator (decimal : Decimal) : Nat :=
  Nat.pow 10 (-decimal.exponent).toNat

/-- The code of the magnitude of a format that is nearest to a decimal. -/
def toCode (format : Format) (decimal : Decimal) : Nat :=
  format.round decimal.numerator decimal.denominator

/-- A positive quotient as a fraction of `10 ^ exponent`. -/
def rescale (exponent : Int) (numerator denominator : Nat) : Nat × Nat :=
  (numerator * Nat.pow 10 (-exponent).toNat, denominator * Nat.pow 10 exponent.toNat)

/-- The power of ten of the last of `count` significant digits of a positive quotient. -/
def lastExponent (count numerator denominator : Nat) : Int :=
  leadingExponent numerator denominator + 1 - count

/-- The decimal of `count` significant digits nearest to a positive quotient; a tie goes to the even
digit. Rounding up to the next power of ten gives one digit more, which is a zero. -/
def nearest (count numerator denominator : Nat) : Decimal :=
  let exponent := lastExponent count numerator denominator
  let scaled := rescale exponent numerator denominator
  ⟨Format.divideToEven scaled.1 scaled.2, exponent⟩

/-- The decimal of `count` significant digits on the other side of a positive quotient than the
nearest one. -/
def opposite (count numerator denominator : Nat) : Decimal :=
  let exponent := lastExponent count numerator denominator
  let scaled := rescale exponent numerator denominator
  let lower := scaled.1 / scaled.2
  if Format.divideToEven scaled.1 scaled.2 = lower then ⟨lower + 1, exponent⟩
  else ⟨lower, exponent⟩

/-- A decimal of `count` digits that reads back as the positive magnitude `code`, the nearest one if
there are two. -/
def readsBack? (format : Format) (code count : Nat) : Option Decimal :=
  let numerator := format.units code
  let denominator := format.unitsPerOne
  [nearest count numerator denominator, opposite count numerator denominator].find?
    fun decimal => decimal.toCode format = code

/-- The shortest decimal that reads back as the positive magnitude `code`. Seventeen digits always
do in the formats used here. -/
def shortest (format : Format) (code : Nat) : Decimal :=
  ((List.range' 1 17).findSome? (readsBack? format code)).getD
    (nearest 17 (format.units code) format.unitsPerOne)

/-- The digits of a number without the zeros at its end, and how many of these there were. At most
`fuel` zeros are dropped. -/
def dropZeros (fuel number : Nat) : Nat × Nat :=
  match fuel with
  | 0 => (number, 0)
  | fuel + 1 =>
    if number ≠ 0 ∧ number % 10 = 0 then
      let rest := dropZeros fuel (number / 10)
      (rest.1, rest.2 + 1)
    else (number, 0)

/-- The same decimal with a last digit other than zero; zero has the exponent zero. -/
def trim (decimal : Decimal) : Decimal :=
  if decimal.digits = 0 then ⟨0, 0⟩
  else
    let rest := dropZeros (digitCount decimal.digits) decimal.digits
    ⟨rest.1, decimal.exponent + rest.2⟩

/-- A list of digits with a point in front of the last `places` of them and at least one digit in
front of the point. -/
def insertPoint (places : Nat) (digits : List Char) : List Char :=
  let padded := List.replicate (places + 1 - digits.length) '0' ++ digits
  let whole := padded.length - places
  padded.take whole ++ '.' :: padded.drop whole

/-- A decimal written with a point and without a power of ten, with at least one digit on either
side of the point and no needless zeros. -/
def positional (decimal : Decimal) : String :=
  let trimmed := decimal.trim
  let digits := Nat.toDigits 10 trimmed.digits
  if 0 ≤ trimmed.exponent then
    String.ofList (digits ++ List.replicate trimmed.exponent.toNat '0' ++ ['.', '0'])
  else String.ofList (insertPoint (-trimmed.exponent).toNat digits)

/-- A decimal written as one digit, a point with the further digits if there are any, and a signed
power of ten of at least two digits. -/
def scientific (decimal : Decimal) : String :=
  let trimmed := decimal.trim
  let digits := Nat.toDigits 10 trimmed.digits
  let power := trimmed.exponent + digits.length - 1
  let powerDigits := Nat.toDigits 10 power.natAbs
  let fraction := match digits.drop 1 with
    | [] => []
    | more => '.' :: more
  String.ofList (digits.take 1 ++ fraction ++ 'e' :: (if power < 0 then '-' else '+')
    :: List.replicate (2 - powerDigits.length) '0' ++ powerDigits)

end Decimal

end Lisplet
