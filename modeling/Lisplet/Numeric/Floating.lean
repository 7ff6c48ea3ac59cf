import Lisplet.Numeric.Format

/-!
Floating-point numbers.

A number of a format is a sign and the code of a magnitude. `Single` and `Double` are the numbers of
the 32-bit and the 64-bit format.

* `Floating.ofBits`, `Floating.toBits`: numbers and their bit patterns.
* `Floating.sameValue`: equality as numbers, where the two zeros agree and what is not a number
  differs from everything.
* `Double.toSingle?`: the nearest 32-bit number, unless the magnitude is too large for one.
* `Single.toDouble`: the same number in the 64-bit format.
-/

namespace Lisplet

/-- A number of a floating-point format. -/
structure Floating (format : Format) where
  negative : Bool
  code : Nat
  deriving DecidableEq, Repr

/-- A 32-bit floating-point number. -/
abbrev Single := Floating Format.single

/-- A 64-bit floating-point number. -/
abbrev Double := Floating Format.double

namespace Floating

variable {format : Format}

/-- The magnitude is a real number. -/
def isFinite (number : Floating format) : Bool :=
  number.code < format.infinity

/-- The magnitude is infinite. -/
def isInfinite (number : Floating format) : Bool :=
  number.code = format.infinity

/-- The code does not stand for a magnitude. -/
def isNaN (number : Floating format) : Bool :=
  format.infinity < number.code

/-- The number with a given bit pattern: the sign bit in front of the code. -/
def ofBits (bits : Nat) : Floating format :=
  let width := format.exponentBits + format.fractionBits
  ⟨bits / Nat.pow 2 width % 2 = 1, bits % Nat.pow 2 width⟩

/-- The bit pattern of a number. -/
def toBits (number : Floating format) : Nat :=
  let sign := if number.negative then 1 else 0
  sign * Nat.pow 2 (format.exponentBits + format.fractionBits) + number.code

/-- Equality as numbers. -/
def sameValue (first second : Floating format) : Bool :=
  !first.isNaN && !second.isNaN && first.code == second.code
    && (first.code == 0 || first.negative == second.negative)

end Floating

/-- The codes of the 64-bit format for each code of the 32-bit format. -/
def narrowing : Nat :=
  Nat.pow 2 (Format.double.fractionBits - Format.single.fractionBits)

/-- The nearest 32-bit number. What is not a number stays so: the upper bits that tell such codes
apart are kept, and the topmost of them is set. -/
def Double.toSingle (number : Double) : Single :=
  if number.isNaN then
    let payload := (number.code - Format.double.infinity) / narrowing
    ⟨number.negative, Format.single.infinity + (payload ||| Format.single.fractions / 2)⟩
  else if number.isInfinite then ⟨number.negative, Format.single.infinity⟩
  else
    ⟨number.negative,
      Format.single.round (Format.double.units number.code) Format.double.unitsPerOne⟩

/-- The nearest 32-bit number, unless a finite number would become infinite. -/
def Double.toSingle? (number : Double) : Option Single :=
  let result := Double.toSingle number
  if result.isInfinite && !number.isInfinite then none else some result

/-- The same number in the 64-bit format. -/
def Single.toDouble (number : Single) : Double :=
  if number.isNaN then
    ⟨number.negative,
      Format.double.infinity + (number.code - Format.single.infinity) * narrowing⟩
  else if number.isInfinite then ⟨number.negative, Format.double.infinity⟩
  else
    ⟨number.negative,
      Format.double.round (Format.single.units number.code) Format.single.unitsPerOne⟩

end Lisplet
