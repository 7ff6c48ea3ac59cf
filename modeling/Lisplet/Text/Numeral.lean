import Lisplet.Text.Blank

/-!
Integers written by people.

`Text.integer?` reads an integer: blanks around it, one sign, and decimal digits of any script, with
single underscores allowed between digits. More than `Text.digitLimit` digits are refused.
-/

namespace Lisplet.Text

/-- The longest digit sequence that is converted to a number. -/
def digitLimit : Nat := 4300

/-- The code points of the digit zero in every script; the other nine digits follow each of them. -/
def digitZeros : List Nat :=
  [0x30, 0x660, 0x6F0, 0x7C0, 0x966, 0x9E6, 0xA66, 0xAE6, 0xB66, 0xBE6, 0xC66, 0xCE6, 0xD66,
    0xDE6, 0xE50, 0xED0, 0xF20, 0x1040, 0x1090, 0x17E0, 0x1810, 0x1946, 0x19D0, 0x1A80, 0x1A90,
    0x1B50, 0x1BB0, 0x1C40, 0x1C50, 0xA620, 0xA8D0, 0xA900, 0xA9D0, 0xA9F0, 0xAA50, 0xABF0,
    0xFF10, 0x104A0, 0x10D30, 0x11066, 0x110F0, 0x11136, 0x111D0, 0x112F0, 0x11450, 0x114D0,
    0x11650, 0x116C0, 0x11730, 0x118E0, 0x11950, 0x11C50, 0x11D50, 0x11DA0, 0x16A60, 0x16AC0,
    0x16B50, 0x1D7CE, 0x1D7D8, 0x1D7E2, 0x1D7EC, 0x1D7F6, 0x1E140, 0x1E2F0, 0x1E950, 0x1FBF0]

/-- The value of a decimal digit of any script. -/
def digitValue? (char : Char) : Option Nat :=
  (digitZeros.find? fun base => base ≤ char.toNat && char.toNat < base + 10).map
    (char.toNat - ·)

/-- The blanks that may surround an integer: all but the separators `U+001C` to `U+001F`. -/
def isMargin (char : Char) : Bool :=
  isBlank char && !(0x1C ≤ char.toNat && char.toNat ≤ 0x1F)

/-- The digit values of `digit (_? digit)*`. -/
def digitGroups? : List Char → Option (List Nat)
  | [] => none
  | [last] => (digitValue? last).map ([·])
  | first :: '_' :: rest => do return (← digitValue? first) :: (← digitGroups? rest)
  | first :: rest => do return (← digitValue? first) :: (← digitGroups? rest)

/-- The natural number with the given decimal digits, the leading one first. -/
def ofDigits (digits : List Nat) : Nat :=
  digits.foldl (fun value digit => value * 10 + digit) 0

/-- The natural number that a digit sequence spells, unless it is too long. -/
def natural? (chars : List Char) : Option Nat :=
  match digitGroups? chars with
  | some digits => if digits.length ≤ digitLimit then some (ofDigits digits) else none
  | none => none

/-- The integer that a text spells. -/
def integer? (text : String) : Option Int :=
  match trimList isMargin text.toList with
  | '-' :: digits => (natural? digits).map fun value => -(value : Int)
  | '+' :: digits => (natural? digits).map fun value => (value : Int)
  | digits => (natural? digits).map fun value => (value : Int)

end Lisplet.Text
