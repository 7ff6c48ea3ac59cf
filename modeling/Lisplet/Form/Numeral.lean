import Lisplet.Expr.Basic
import Lisplet.Text.Numeral

/-!
The values of numerals.

A numeral is a sequence of digits and points. Without a point it denotes an integer, with one point a
float; `numeral?` gives the expression if the number fits in 32 bits.
-/

namespace Lisplet

/-- The integer that a digit sequence denotes, if the sequence is not too long and the integer fits in
32 bits. -/
def integerNumeral? (digits : List Char) : Option Expr :=
  if digits.isEmpty || Text.digitLimit < digits.length then none
  else Expr.ofInt? (ofAsciiDigits digits)

/-- The expression that a numeral denotes. -/
def numeral? (text : String) : Option Expr :=
  let chars := text.toList
  let whole := chars.takeWhile (· != '.')
  match chars.dropWhile (· != '.') with
  | [] => integerNumeral? whole
  | _ :: fraction =>
    if fraction.contains '.' then none
    else (Single.ofNumeral? whole fraction).map .float

end Lisplet
