import Lisplet.Host

/-!
A terminal and its machine.

The terminal is told of a style by numbers in escape sequences, the weight outermost, and by the number 0
when the text ends. The memory of the machine holds texts of 64 GiB, and its stack has a thousand frames,
of which a level of evaluation or of printing takes three.
-/

namespace Lisplet

namespace Terminal

/-- The number of a weight. -/
def weightCode : Weight → String
  | .bold => "1"
  | .dark => "2"

/-- The number of a colour. -/
def colorCode : Color → String
  | .red => "31"
  | .magenta => "35"
  | .cyan => "36"

/-- The escape sequence with a number. -/
def sequence (code : String) : String :=
  "\x1b[" ++ code ++ "m"

/-- The escape sequences in front of a text in a style. -/
def opening (style : Style) : String :=
  sequence (weightCode style.weight) ++
    match style.color with
    | some color => sequence (colorCode color)
    | none => ""

/-- The escape sequence behind a text in a style. -/
def closing : String := sequence "0"

/-- A text in a style, if colours are on. The sequences are written even around an empty text. -/
def paint (style : Style) (colored : Bool) (text : String) : String :=
  if colored then opening style ++ text ++ closing else text

theorem sequences_sequence {code : String} (unended : 'm' ∉ code.toList) :
    Sequences (sequence code).toList := by
  have whole : (sequence code).toList = '\x1b' :: (('[' :: code.toList) ++ 'm' :: []) := by
    simp [sequence]
  rw [whole]
  exact .cons (by simpa using unended) .nil

theorem sequences_opening (style : Style) : Sequences (opening style).toList := by
  rw [opening, String.toList_append]
  refine .append (sequences_sequence ?_) ?_
  · cases style.weight <;> decide
  · cases style.color with
    | none => exact .nil
    | some color => exact sequences_sequence (by cases color <;> decide)

end Terminal

/-- The terminal as a host. -/
instance Terminal.host : Host where
  paint := Terminal.paint
  paint_plain _ _ := rfl
  paint_colored style :=
    ⟨Terminal.opening style, Terminal.closing, Terminal.sequences_opening style,
      Terminal.sequences_sequence (by decide), fun _ => rfl⟩
  textCapacity := 68719476736
  stackLevels := 333
  stackLevels_pos := by decide

end Lisplet
