import Lisplet.Error.Kind
import Lisplet.Expr.Equality
import Lisplet.Text.Utf8
import Lisplet.Token.Basic

/-!
Errors and the other ways in which a computation stops.

* `Error`: an error of the language, with its arguments and the span of source text to point at.
* `Breakdown`: a failure that is no error of the language, such as a number that cannot be printed.
* `Fault`: everything that stops a computation.
* `Flaw.toError`: a flaw of a text as an error located in that text.
-/

namespace Lisplet

/-- An argument of an error. -/
inductive Arg where
  | text (text : String)
  | number (value : Int)
  | expr (expr : Expr)
  deriving DecidableEq, Repr, Inhabited

/-- An error of the language. The span `start` to `stop` lies in `source`, which is empty if the error
has no place in a text. -/
structure Error where
  kind : ErrorKind
  args : List Arg := []
  source : String := ""
  start : Int := 0
  stop : Int := 1
  /-- Whether the offending line is shown. -/
  diagnosed : Bool := true
  /-- Whether the error stems from the interpreter and not from the program it runs. -/
  internal : Bool := false
  deriving DecidableEq, Repr, Inhabited

/-- The end of the span of an error: one behind its start if none is given, or if it is `-1`. -/
def Error.spanEnd (start : Int) (stop : Option Int) : Int :=
  match stop with
  | none => start + 1
  | some stop => if stop = -1 then start + 1 else stop

/-- An error whose only argument is its message. -/
def Error.general (message : String) : Error :=
  { kind := .general, args := [.text message] }

/-- The classes of breakdowns that a caller may state. -/
inductive BreakdownClass where
  | value
  | key
  | overflow
  | index
  | type
  deriving DecidableEq, Repr

/-- Failures that are no errors of the language. -/
inductive Breakdown where
  /-- An integer outside the 32-bit range. -/
  | integerRange (value : Int)
  /-- A number too large for the 32-bit format. -/
  | floatRange (value : Double)
  /-- A message template with more slots than arguments. -/
  | missingSlot (index : Nat)
  /-- An argument or list item that is not there. -/
  | missingItem
  /-- The index of an item that is outside the 64-bit range. -/
  | indexRange
  /-- A number of repetitions that is outside the 64-bit range. -/
  | countRange
  /-- A repetition whose length is outside the 64-bit range. -/
  | textLength
  /-- A text that is too long for the memory. -/
  | memory
  /-- A character behind the end of a text. -/
  | pastEnd
  /-- A depth compared with a limit that has no number. -/
  | voidLimit
  /-- The last result of none. -/
  | noResults
  /-- A path with a null character. -/
  | nullInPath
  /-- A file that is not UTF-8. -/
  | undecodable (fault : Utf8.Fault)
  /-- A breakdown stated by its class and arguments. -/
  | stated (kind : BreakdownClass) (args : List Arg)
  deriving DecidableEq, Repr

/-- Everything that stops a computation. -/
inductive Fault where
  /-- An error of the language. -/
  | error (error : Error)
  /-- A failure that is no error of the language. -/
  | breakdown (breakdown : Breakdown)
  /-- The user interrupted the program. -/
  | interrupt
  /-- The interpreter itself ran out of stack. -/
  | exhausted
  /-- The program ends, with a code or without one. -/
  | exit (code : Option Int)
  deriving DecidableEq, Repr

/-- The kind of error that a cause makes. -/
def FlawCause.kind : FlawCause → ErrorKind
  | .endOfInput => .unexpectedEnd
  | .notEscapable _ => .notEscapable
  | .numberChar _ => .numberChar
  | .unexpectedChar _ => .unexpectedChar
  | .unbalanced => .unbalanced
  | .malformedNumber _ => .malformedNumber
  | .tooDeep _ => .nestingTooDeep

/-- The arguments of the error that a cause makes. -/
def FlawCause.args : FlawCause → List Arg
  | .endOfInput | .unbalanced => []
  | .notEscapable char | .numberChar char | .unexpectedChar char => [.text (String.ofList [char])]
  | .malformedNumber text => [.text text]
  | .tooDeep limit => [.number limit]

/-- A flaw as an error located in the text it was found in. -/
def Flaw.toError (flaw : Flaw) (source : String) : Error :=
  { kind := flaw.cause.kind, args := flaw.cause.args, source,
    start := flaw.start, stop := flaw.stop }

end Lisplet
