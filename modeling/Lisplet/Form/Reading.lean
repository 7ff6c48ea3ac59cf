import Lisplet.Form.Nest
import Lisplet.Token.Scan

/-!
Reading forms from a text.

* `Cursor.readAll`: all forms from a cursor on, up to the end of the text or the first flaw.
* `Cursor.readForm`: exactly one form.
* `Reading.ofText`: all forms of a text.

Of several flaws the leftmost one is reported, whether it is one of a token or of a form.
-/

namespace Lisplet

/-- The deepest nesting of lists that is read or evaluated if no other limit is given. -/
def defaultLimit : Int := 100

/-- The forms of a text, the flaw that ended the reading if there is one, and the cursor then. -/
structure Reading where
  forms : List Expr
  flaw : Option Flaw
  cursor : Cursor
  deriving DecidableEq, Repr

namespace Cursor

/-- The cursor behind a token that was read from `cursor` on. -/
def behind (cursor : Cursor) (token : Token) : Cursor :=
  cursor.advance (token.stop - cursor.offset)

/-- The flaw of a text that ends too early: that of its tokens, else its end. -/
def endFlaw (scan : Scan) : Flaw :=
  scan.flaw.getD (.at .endOfInput scan.cursor.offset)

/-- All forms from a cursor on. -/
def readAll (limit : Int) (cursor : Cursor) : Reading :=
  let scan := cursor.scan
  match Nest.feedAll limit {} scan.tokens with
  | (nest, some (flaw, token)) => ⟨nest.forms, some flaw, cursor.behind token⟩
  | (nest, none) =>
    if scan.flaw.isNone ∧ nest.depth = 0 then ⟨nest.forms, none, scan.cursor⟩
    else ⟨nest.forms, some (endFlaw scan), scan.cursor⟩

/-- Exactly one form, and the cursor behind it. -/
def readForm (limit : Int) (cursor : Cursor) : Except Flaw Expr × Cursor :=
  let scan := cursor.scan
  match Nest.feedOne limit {} scan.tokens with
  | .complete form token => (.ok form, cursor.behind token)
  | .flawed flaw token => (.error flaw, cursor.behind token)
  | .unfinished => (.error (endFlaw scan), scan.cursor)

end Cursor

/-- All forms of a text. -/
def Reading.ofText (limit : Int) (text : String) : Reading :=
  (Cursor.ofText text).readAll limit

end Lisplet
