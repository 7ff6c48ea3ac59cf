/-!
The kinds of errors of the language.

Each kind has a place in a small hierarchy, a message template whose slots are filled by the arguments
of the error from left to right, and names for the arguments that callers may ask for.
-/

namespace Lisplet

/-- The kinds of errors. -/
inductive ErrorKind where
  /-- Any error; its only argument is the message. -/
  | general
  /-- A text without a valid lexical shape. -/
  | lexical
  | unexpectedEnd
  | notEscapable
  | numberChar
  | unexpectedChar
  /-- Tokens that do not make up a form. -/
  | parse
  | unbalanced
  | malformedNumber
  | nestingTooDeep
  /-- A name that a scope cannot resolve. -/
  | scope
  | notFound
  /-- A form that cannot be evaluated. -/
  | evaluation
  | notAFunction
  | emptyList
  | arityMismatch
  | typeMismatch
  | integerOverflow
  | evaluationTooDeep
  | fileNotReadable
  deriving DecidableEq, Repr, Inhabited

/-- The names of error arguments. -/
inductive Field where
  | char
  | text
  | limit
  | name
  | value
  | expected
  | got
  deriving DecidableEq, Repr

/-- A piece of a message template. -/
inductive Piece where
  | text (text : String)
  | slot
  deriving DecidableEq, Repr

namespace ErrorKind

/-- The kind that a kind is a case of. -/
def parent? : ErrorKind → Option ErrorKind
  | .general => none
  | .lexical | .parse | .scope | .evaluation | .fileNotReadable => some .general
  | .unexpectedEnd | .notEscapable | .numberChar | .unexpectedChar => some .lexical
  | .unbalanced | .malformedNumber | .nestingTooDeep => some .parse
  | .notFound => some .scope
  | .notAFunction | .emptyList | .arityMismatch | .typeMismatch | .integerOverflow
  | .evaluationTooDeep => some .evaluation

/-- The kinds that a kind is a case of, the nearest one first. -/
def ancestors (kind : ErrorKind) : List ErrorKind :=
  match kind.parent? with
  | none => []
  | some .general => [.general]
  | some family => [family, .general]

/-- The message of a kind, with a slot for each argument. -/
def template : ErrorKind → List Piece
  | .general | .lexical | .parse | .scope | .evaluation => [.slot]
  | .unexpectedEnd => [.text "unexpected end of input"]
  | .notEscapable => [.text "'\\", .slot, .text "' is not an escapable character"]
  | .numberChar => [.text "invalid character '", .slot, .text "' in number"]
  | .unexpectedChar => [.text "unexpected character '", .slot, .text "'"]
  | .unbalanced => [.text "unbalanced closing parenthesis"]
  | .malformedNumber => [.text "'", .slot, .text "' is not a valid 32-bit number"]
  | .nestingTooDeep => [.text "lists nested deeper than ", .slot, .text " levels"]
  | .notFound => [.text "identifier '", .slot, .text "' not found in scope"]
  | .notAFunction => [.text "'", .slot, .text "' is not a function"]
  | .emptyList => [.text "cannot evaluate an empty list"]
  | .arityMismatch =>
    [.text "'", .slot, .text "' expects ", .slot, .text " argument(s), got ", .slot]
  | .typeMismatch => [.text "'", .slot, .text "' expects ", .slot, .text ", got '", .slot, .text "'"]
  | .integerOverflow => [.text "result of '", .slot, .text "' does not fit in a 32-bit integer"]
  | .evaluationTooDeep => [.text "evaluation nested deeper than ", .slot, .text " levels"]
  | .fileNotReadable => [.text "'", .slot, .text "' could not be opened"]

/-- The names of the leading arguments of a kind. -/
def fields : ErrorKind → List Field
  | .notEscapable | .numberChar | .unexpectedChar => [.char]
  | .malformedNumber => [.text]
  | .nestingTooDeep | .evaluationTooDeep => [.limit]
  | .notFound => [.name]
  | .notAFunction => [.value]
  | .arityMismatch | .typeMismatch => [.name, .expected, .got]
  | _ => []

end ErrorKind

end Lisplet
