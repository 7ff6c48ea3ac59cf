/-!
Binary floating-point formats.

The magnitudes of a format are numbered upwards from zero by their *code*: first the subnormal ones,
then the normal ones, then infinity; the codes above infinity stand for what is not a number. Codes
grow with magnitudes, so a magnitude and its neighbours have consecutive codes.

* `Format.units`: the magnitude of a code, counted in units of the smallest positive magnitude.
* `Format.round`: the code nearest to a quotient of natural numbers, a tie going to the even code.
-/

namespace Lisplet

/-- A binary floating-point format: how many bits hold the fraction and how many the exponent. -/
structure Format where
  fractionBits : Nat
  exponentBits : Nat
  deriving DecidableEq, Repr

namespace Format

/-- The 32-bit format. -/
def single : Format := ⟨23, 8⟩

/-- The 64-bit format. -/
def double : Format := ⟨52, 11⟩

/-- The number of fractions: how many codes there are from one power of two to the next. -/
def fractions (format : Format) : Nat :=
  Nat.pow 2 format.fractionBits

/-- The code of infinity. -/
def infinity (format : Format) : Nat :=
  (Nat.pow 2 format.exponentBits - 1) * format.fractions

/-- The smallest positive magnitude is one divided by `Nat.pow 2 unitBits`. -/
def unitBits (format : Format) : Nat :=
  Nat.pow 2 (format.exponentBits - 1) - 2 + format.fractionBits

/-- How many units of the smallest positive magnitude make up one. -/
def unitsPerOne (format : Format) : Nat :=
  Nat.pow 2 format.unitBits

/-- The magnitude of a code, counted in units of the smallest positive magnitude. -/
def units (format : Format) (code : Nat) : Nat :=
  if code < format.fractions then code
  else (format.fractions + code % format.fractions) * Nat.pow 2 (code / format.fractions - 1)

/-- The integer nearest to a quotient, the even one of two that are equally near. -/
def divideToEven (numerator denominator : Nat) : Nat :=
  let quotient := numerator / denominator
  let twice := 2 * (numerator % denominator)
  if twice < denominator then quotient
  else if denominator < twice then quotient + 1
  else quotient + quotient % 2

/-- The code of the magnitude nearest to a quotient, the even code of two that are equally near.
A quotient too large for the format has the code of infinity.

The quotient is measured in units and shifted right until `fractionBits + 1` bits of it are left in
front of the point. A rounding that carries into a further bit lands on the next power of two, which
is the right code again. -/
def round (format : Format) (numerator denominator : Nat) : Nat :=
  let scaled := numerator * format.unitsPerOne
  let shift := Nat.log2 (scaled / denominator) - format.fractionBits
  min format.infinity
    (shift * format.fractions + divideToEven scaled (denominator * Nat.pow 2 shift))

end Format

end Lisplet
