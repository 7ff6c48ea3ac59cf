import Lisplet.Expr.Basic

/-!
The printed form of expressions.

Printing fails for a float whose shortest text cannot be found because a candidate is too large for the
32-bit format; the failure is that candidate, and of several the one of the leftmost float.
-/

namespace Lisplet.Expr

/-- One character of a string between its quotes. -/
def escape (char : Char) : List Char :=
  if char = '\n' then ['\\', 'n']
  else if char = '\t' then ['\\', 't']
  else if char = '\\' then ['\\', '\\']
  else [char]

/-- The printed form of a string. A double quote inside it is not escaped. -/
def quoteString (text : String) : String :=
  String.ofList ('"' :: text.toList.flatMap escape ++ ['"'])

/-- The printed form of a function. -/
def functionLabel (name : String) : String :=
  "<function " ++ name ++ ">"

mutual

/-- The printed form of an expression. -/
def print : Expr → Except Double String
  | .identifier name => .ok name
  | .string text => .ok (quoteString text)
  | .integer value => .ok (toString value)
  | .float value => Single.text value
  | .list items => do
    let texts ← printAll items
    return "(" ++ " ".intercalate texts ++ ")"
  | .native builtin => .ok (functionLabel builtin.name)
  | .closure _ _ _ name => .ok (functionLabel name)

/-- The printed forms of several expressions. -/
def printAll : List Expr → Except Double (List String)
  | [] => .ok []
  | first :: rest => do
    let text ← print first
    let texts ← printAll rest
    return text :: texts

end

end Lisplet.Expr
