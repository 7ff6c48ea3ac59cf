import Lisplet.Error.Message
import Lisplet.Text.Slice

/-!
The diagnosis of an error.

`Error.diagnosis` shows the line of the source on which the span of an error begins, and a second line
that marks the span with a caret and a tail of tildes. The mark covers at least one column and does not
go beyond the end of the line. A span that begins far outside its source breaks down.
-/

namespace Lisplet

/-- The line of an error, and where the span begins and ends on it. -/
structure Excerpt where
  line : List Char
  first : Int
  last : Int
  deriving DecidableEq, Repr

/-- The line of the source on which the span of an error begins. -/
def Error.excerpt (error : Error) : Excerpt :=
  let chars := error.source.toList
  let lineStart := Text.lineStart chars error.start
  let lineEnd := Text.lineEnd chars error.start
  let first := error.start - lineStart
  { line := (chars.take lineEnd).drop lineStart
    first
    last := max (min error.stop lineEnd - lineStart) (first + 1) }

/-- The line of an error with its span in a style, and the span marked below it. -/
def Error.diagnosis [Host] (error : Error) (style : Style) (colored : Bool) :
    Except Fault String := do
  let excerpt := error.excerpt
  let piece (start stop : Int) : String := String.ofList (Text.slice excerpt.line start stop)
  let margin ← padding error.source.length " " excerpt.first
  let tail ← padding error.source.length "~" (excerpt.last - excerpt.first - 1)
  return "  " ++ piece 0 excerpt.first
    ++ style.paint colored (piece excerpt.first excerpt.last)
    ++ piece excerpt.last excerpt.line.length ++ "\n"
    ++ "  " ++ margin ++ style.paint colored ("^" ++ tail)

end Lisplet
