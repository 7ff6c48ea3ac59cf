import Lisplet.Text.Style

/-!
What the interpreter runs on.

How texts are painted, how long a text can be and how deep a computation can go are up to the host. The
interpreter relies on no more of it than is said here.

The stack of a host is counted in levels. An evaluation inside another one takes a level, and so does a
list inside another one when `str` prints it. All else that uses the stack is taken to find the room that
it needs: the tokenizer and the reader, which go no deeper than a limit admits, and what the console prints
when no evaluation is under way.

* `Host`: a host.
* `Style.paint`: a text in a style, as the host paints it.
-/

namespace Lisplet

/-- What an interpreter runs on. -/
class Host where
  /-- A text in a style, where colours are on or off. -/
  paint (style : Style) (colored : Bool) (text : String) : String
  /-- Without colours a text is left alone. -/
  paint_plain (style : Style) (text : String) : paint style false text = text
  /-- With colours a text stands between escape sequences, whatever the text is. -/
  paint_colored (style : Style) : ∃ opening closing : String,
    Sequences opening.toList ∧ Sequences closing.toList ∧
      ∀ text, paint style true text = opening ++ text ++ closing
  /-- The length of the longest text that the memory holds. -/
  textCapacity : Nat
  /-- The number of levels that the stack has room for. -/
  stackLevels : Nat
  /-- Something can be evaluated. -/
  stackLevels_pos : 0 < stackLevels

/-- A text in a style, if colours are on. -/
def Style.paint [Host] (style : Style) (colored : Bool) (text : String) : String :=
  Host.paint style colored text

@[simp]
theorem Style.paint_uncolored [Host] (style : Style) (text : String) :
    style.paint false text = text :=
  Host.paint_plain style text

/-- However a text is painted, it stands unchanged between two others that do not depend on it. -/
theorem Style.exists_paint [Host] (style : Style) (colored : Bool) :
    ∃ opening closing : String, ∀ text, style.paint colored text = opening ++ text ++ closing := by
  cases colored with
  | false => exact ⟨"", "", fun text => by simp⟩
  | true =>
    obtain ⟨opening, closing, _, _, painted⟩ := Host.paint_colored style
    exact ⟨opening, closing, painted⟩

end Lisplet
