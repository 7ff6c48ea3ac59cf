import Lisplet.Text.Blank
import Lisplet.Text.Slice
import Lisplet.Token.Scan

/-!
Chunks of complete forms.

Source text arrives line by line. A chunk is a run of lines that is complete as a whole and none of
whose shorter beginnings is: the lines of a form that goes on are joined until the last one closes it.

* `isIncomplete`: a text that a further line could complete.
* `Chunk.split`: the chunks of a list of lines.
-/

namespace Lisplet

/-- The number of lists left open by tokens, none if one of them closes more than is open. -/
def openLists? (depth : Nat) : List Token → Option Nat
  | [] => some depth
  | token :: tokens =>
    match token.shape, depth with
    | .leftParen, depth => openLists? (depth + 1) tokens
    | .rightParen, 0 => none
    | .rightParen, depth + 1 => openLists? depth tokens
    | _, depth => openLists? depth tokens

/-- A text with an open list or an open string, and no flaw that further text could not mend. -/
def isIncomplete (code : String) : Bool :=
  let scan := Scan.ofText code
  match openLists? 0 scan.tokens, scan.flaw with
  | none, _ => false
  | some depth, none => 0 < depth
  | some _, some flaw => flaw.cause = .endOfInput

/-- Source text and the number of its first line. -/
structure Chunk where
  code : String
  line : Nat
  deriving DecidableEq, Repr

namespace Chunk

/-- A text with a further line; an empty text is replaced by the line. -/
def joinLine (previous line : String) : String :=
  if previous.isEmpty then line else previous ++ "\n" ++ line

/-- The chunks of lines numbered from `number` on, the first of which continue `pending`, which is
incomplete, or empty if nothing is pending. Blank chunks are dropped, and an incomplete one at the end
is kept. -/
def splitFrom (number : Nat) (pending : Chunk) : List String → List Chunk
  | [] => if pending.code.isEmpty then [] else [pending]
  | line :: lines =>
    let code := joinLine pending.code (Text.dropFinalBreaks line)
    let chunk : Chunk := ⟨code, if pending.code.isEmpty then number else pending.line⟩
    if isIncomplete code then splitFrom (number + 1) chunk lines
    else
      let rest := splitFrom (number + 1) ⟨"", 0⟩ lines
      if (Text.strip code).isEmpty then rest else chunk :: rest

/-- The chunks of a list of lines. -/
def split (lines : List String) : List Chunk :=
  splitFrom 1 ⟨"", 0⟩ lines

end Chunk

end Lisplet
