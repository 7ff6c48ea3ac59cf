import Lisplet.Numeric.Decimal

/-!
The texts of floating-point numbers.

* `Double.text`: the text of a number that the language prints. It has the fewest significant digits,
  at most nine, that read back as the number by way of the 64-bit and then the 32-bit format.
* `Double.scientific`: the shortest text in scientific notation, used where a number is only shown.
* `Single.ofNumeral?`: the 32-bit number that a numeral with a point denotes.
-/

namespace Lisplet

/-- The most significant digits that the text of a 32-bit number needs. -/
def textDigits : Nat := 9

/-- The 64-bit number nearest to a decimal with a sign. -/
def Double.ofDecimal (negative : Bool) (decimal : Decimal) : Double :=
  ⟨negative, decimal.toCode Format.double⟩

/-- The decimal of `count` significant digits nearest to a finite number. -/
def Double.nearestDecimal (number : Double) (count : Nat) : Decimal :=
  if number.code = 0 then ⟨0, 0⟩
  else Decimal.nearest count (Format.double.units number.code) Format.double.unitsPerOne

/-- The first decimal of one of the given lengths that reads back as a number through both formats,
else the longest one. Fails with the first candidate that is too large for the 32-bit format. -/
def Double.textDecimal (number : Double) : List Nat → Except Double Decimal
  | [] => .ok (Double.nearestDecimal number textDigits)
  | count :: counts =>
    let decimal := Double.nearestDecimal number count
    let candidate := Double.ofDecimal number.negative decimal
    (Double.toSingle? candidate).elim (.error candidate) fun single =>
      if (Single.toDouble single).sameValue number then .ok decimal
      else Double.textDecimal number counts

/-- The text of a number. Fails with the first candidate that is too large for the 32-bit format. -/
def Double.text (number : Double) : Except Double String :=
  let sign := if number.negative then "-" else ""
  if number.isNaN then .ok "nan"
  else if number.isInfinite then .ok (sign ++ "inf")
  else (Double.textDecimal number (List.range' 1 textDigits)).map (sign ++ ·.positional)

/-- The shortest text of a non-zero finite number in scientific notation. -/
def Double.scientific (number : Double) : String :=
  (if number.negative then "-" else "")
    ++ (Decimal.shortest Format.double number.code).scientific

/-- The text of a 32-bit number. -/
def Single.text (number : Single) : Except Double String :=
  Double.text (Single.toDouble number)

/-- The value of a decimal digit of the ASCII set. -/
def asciiDigit (char : Char) : Nat :=
  char.toNat - '0'.toNat

/-- The natural number with the given ASCII digits. -/
def ofAsciiDigits (digits : List Char) : Nat :=
  digits.foldl (fun value digit => value * 10 + asciiDigit digit) 0

/-- The 32-bit number that digits in front of and behind a point denote: rounded to the 64-bit format
first and then to the 32-bit one. None if either rounding leaves the finite numbers. -/
def Single.ofNumeral? (whole fraction : List Char) : Option Single :=
  let decimal : Decimal := ⟨ofAsciiDigits (whole ++ fraction), -(fraction.length : Int)⟩
  let number := Double.ofDecimal false decimal
  if number.isInfinite then none else Double.toSingle? number

end Lisplet
