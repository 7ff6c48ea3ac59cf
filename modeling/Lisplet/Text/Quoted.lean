import Lisplet.Text.Printable

/-!
Quoted text.

`Text.quote` writes a text between quotes. Single quotes are used unless the text has one and has no
double quote. The backslash, the quote in use and the common layout characters are escaped by a
backslash, and every other unprintable character by its code point in hexadecimal, in two, four or
eight digits.
-/

namespace Lisplet.Text

/-- The hexadecimal text of a number, filled up with zeros to `width` digits. -/
def hexPadded (width number : Nat) : List Char :=
  let digits := Nat.toDigits 16 number
  List.replicate (width - digits.length) '0' ++ digits

/-- The escape of a character by its code point. -/
def pointEscape (char : Char) : List Char :=
  let point := char.toNat
  if point < 0x100 then '\\' :: 'x' :: hexPadded 2 point
  else if point < 0x10000 then '\\' :: 'u' :: hexPadded 4 point
  else '\\' :: 'U' :: hexPadded 8 point

/-- One character of a text quoted by `mark`. -/
def quoteChar (mark char : Char) : List Char :=
  if char = mark ∨ char = '\\' then ['\\', char]
  else if char = '\n' then ['\\', 'n']
  else if char = '\r' then ['\\', 'r']
  else if char = '\t' then ['\\', 't']
  else if isPrintable char then [char]
  else pointEscape char

/-- The quote mark for a text: single, unless only a single quote occurs in the text. -/
def quoteMark (chars : List Char) : Char :=
  if chars.contains '\'' && !chars.contains '"' then '"' else '\''

/-- A text between quotes. -/
def quote (text : String) : String :=
  let chars := text.toList
  let mark := quoteMark chars
  String.ofList (mark :: chars.flatMap (quoteChar mark) ++ [mark])

end Lisplet.Text
