/-!
Styled text for a terminal.

A `Style` is a weight and an optional colour. How a terminal is told to show a text in a style is not
decided here: it is told by escape sequences in front of the text and behind it, which do not count as
text.

* `Style`: a style, and those of the texts that are printed.
* `Sequences`: characters that are escape sequences and nothing else.
-/

namespace Lisplet

/-- The weights of styled text. -/
inductive Weight where
  | bold
  | dark
  deriving DecidableEq, Repr

/-- The colours of styled text. -/
inductive Color where
  | red
  | magenta
  | cyan
  deriving DecidableEq, Repr

/-- A weight and an optional colour. -/
structure Style where
  weight : Weight
  color : Option Color := none
  deriving DecidableEq, Repr

namespace Style

/-- The style of what a message is about. -/
def emphasis : Style := ⟨.bold, none⟩

/-- The style of an error. -/
def error : Style := ⟨.bold, some .red⟩

/-- The style of a warning. -/
def warning : Style := ⟨.bold, some .magenta⟩

/-- The style of an evaluation step. -/
def step : Style := ⟨.dark, some .cyan⟩

end Style

/-- Escape sequences, one behind the other. Each goes from an escape character to the next `m`. -/
inductive Sequences : List Char → Prop where
  | nil : Sequences []
  | cons {code rest : List Char} (unended : 'm' ∉ code) (more : Sequences rest) :
      Sequences ('\x1b' :: (code ++ 'm' :: rest))

theorem Sequences.append {front back : List Char} (first : Sequences front)
    (second : Sequences back) : Sequences (front ++ back) := by
  induction first with
  | nil => exact second
  | cons unended _ previous =>
    rw [List.cons_append, List.append_assoc, List.cons_append]
    exact .cons unended previous

end Lisplet
