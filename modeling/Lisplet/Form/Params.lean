import Lisplet.Text.Blank
import Lisplet.Token.Scan

/-!
Parameter lists.

The parameters of a function are the words of a text. They must be distinct, and each must read as a
single identifier.
-/

namespace Lisplet

/-- A text that reads as the single identifier of the same name. -/
def isName (text : String) : Bool :=
  let scan := Scan.ofText text
  match scan.tokens with
  | [token] => scan.flaw.isNone && token.shape = .identifier && token.text = text
  | _ => false

/-- The parameter names in a text. -/
def params? (text : String) : Option (List String) :=
  let names := Text.words text
  if names.all isName ∧ names.Nodup then some names else none

end Lisplet
