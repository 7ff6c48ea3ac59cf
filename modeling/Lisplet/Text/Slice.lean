/-!
Positions and pieces of a text.

A position is an integer: a negative one counts back from the end of the text, and one that lies
outside the text stands for the nearer end. `Text.slice` cuts a piece out by two such positions;
the searches for line breaks take them as bounds.
-/

namespace Lisplet.Text

/-- The offset that `position` stands for in a text of `length` characters. -/
def offsetOf (length : Nat) (position : Int) : Nat :=
  if position < 0 then (position + length).toNat else min position.toNat length

/-- The piece of a text from one position up to another, empty if they are in the wrong order. -/
def slice (chars : List Char) (start stop : Int) : List Char :=
  let first := offsetOf chars.length start
  let last := offsetOf chars.length stop
  (chars.take last).drop first

/-- The number of line breaks in front of `stop`. -/
def countBreaks (chars : List Char) (stop : Int) : Nat :=
  (slice chars 0 stop).count '\n'

/-- The offset just behind the last line break in front of `stop`: where the line of `stop`
begins. -/
def lineStart (chars : List Char) (stop : Int) : Nat :=
  let front := slice chars 0 stop
  front.length - (front.reverse.takeWhile (· != '\n')).length

/-- The offset of the first line break at or behind `start`: where the line of `start` ends. The
last line ends with the text, and so does a line sought from behind the end. -/
def lineEnd (chars : List Char) (start : Int) : Nat :=
  let first := offsetOf chars.length start
  first + ((chars.drop first).takeWhile (· != '\n')).length

/-- The line breaks of all conventions, `\r\n` and a lone `\r` among them, as `\n`. -/
def unifyBreaks : List Char → List Char
  | [] => []
  | '\r' :: '\n' :: rest => '\n' :: unifyBreaks rest
  | '\r' :: rest => '\n' :: unifyBreaks rest
  | char :: rest => char :: unifyBreaks rest

/-- The lines of a character list; `line` holds the characters of the line being read, last one
first. A text that ends with a line break has no further line behind it. -/
def linesFrom (line : List Char) : List Char → List String
  | [] => if line.isEmpty then [] else [String.ofList line.reverse]
  | '\n' :: rest => String.ofList line.reverse :: linesFrom [] rest
  | char :: rest => linesFrom (char :: line) rest

/-- The lines of a text, without their line breaks. -/
def lines (text : String) : List String :=
  linesFrom [] text.toList

/-- A text without the line breaks at its end. -/
def dropFinalBreaks (text : String) : String :=
  String.ofList ((text.toList.reverse.dropWhile (· == '\n')).reverse)

end Lisplet.Text
