import Lisplet.Error.Basic
import Lisplet.Token.Scan

/-!
Tokens read by hand.

The readers of single tokens at a cursor, with their flaws as faults located in the text. An identifier
read at the end of the text breaks down, because there is no character to point at.
-/

namespace Lisplet

/-- A flaw as a fault located in the text it was found in. -/
def Flaw.toFault (source : String) (flaw : Flaw) : Fault :=
  .error (flaw.toError source)

namespace Cursor

/-- The fault of a reader's result, located in the text. -/
def located {α : Type} (source : String) (reading : Except Flaw α × Cursor) :
    Except Fault α × Cursor :=
  (reading.1.mapError (Flaw.toFault source), reading.2)

/-- The identifier at the cursor. -/
def identifierHere (source : String) (cursor : Cursor) : Except Fault Token × Cursor :=
  match cursor.readIdentifier? with
  | some reading => located source reading
  | none => (.error (.breakdown .pastEnd), cursor)

/-- All tokens from the cursor on; a flaw spoils all of them. -/
def tokensHere (source : String) (cursor : Cursor) : Except Fault (List Token) × Cursor :=
  let scan := cursor.scan
  match scan.flaw with
  | some flaw => (.error (flaw.toFault source), scan.cursor)
  | none => (.ok scan.tokens, scan.cursor)

end Cursor

end Lisplet
