import Lisplet.Text.Quoted

/-!
Tokens of the language and what can be wrong with a text.

* `Token`: a lexical unit with the half-open span of offsets it was read from.
* `Flaw`: a cause together with the span to point at. The flaws of tokens and those of forms share
  one type, because whichever stands first in a text is the one to report.
-/

namespace Lisplet

/-- The shapes of tokens. -/
inductive Shape where
  | identifier
  | leftParen
  | rightParen
  | string
  | number
  deriving DecidableEq, Repr

/-- A lexical unit. The text of a string is the text it stands for, without quotes and escapes. -/
structure Token where
  shape : Shape
  text : String
  start : Nat
  stop : Nat
  deriving DecidableEq, Repr

/-- The label of a token: its shape and the quoted text of a name or value. -/
def Token.label (token : Token) : String :=
  match token.shape with
  | .identifier => "Identifier(" ++ Text.quote token.text ++ ")"
  | .leftParen => "LeftParen"
  | .rightParen => "RightParen"
  | .string => "Value(" ++ Text.quote token.text ++ ", STRING)"
  | .number => "Value(" ++ Text.quote token.text ++ ", NUMBER)"

/-- What can be wrong with a text. -/
inductive FlawCause where
  /-- The text ends inside a string or a list, or where a form was wanted. -/
  | endOfInput
  /-- A backslash in front of a character that has no escape. -/
  | notEscapable (char : Char)
  /-- A character in a numeral that is neither a digit nor a point. -/
  | numberChar (char : Char)
  /-- A character that no token begins with. -/
  | unexpectedChar (char : Char)
  /-- A closing parenthesis without an open list. -/
  | unbalanced
  /-- A numeral that denotes no 32-bit number. -/
  | malformedNumber (text : String)
  /-- A list nested deeper than the limit. -/
  | tooDeep (limit : Int)
  deriving DecidableEq, Repr

/-- A cause and the half-open span of offsets to point at. -/
structure Flaw where
  cause : FlawCause
  start : Nat
  stop : Nat
  deriving DecidableEq, Repr

/-- A flaw at a single offset. -/
def Flaw.at (cause : FlawCause) (offset : Nat) : Flaw :=
  ⟨cause, offset, offset + 1⟩

end Lisplet
