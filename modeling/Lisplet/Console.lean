import Lisplet.Error.Diagnosis
import Lisplet.Eval.World

/-!
The console: where faults are reported.

A console knows, for every file, the line that is being worked on, so that a report can say where it
happened. It collects what is printed. After a report it either ends the program or forgets the lines.

* `Console.warn`, `Console.report`: print a warning or an error.
* `Console.settle`: what happens to a fault that reaches the console: it is reported, and a failure that
  is no error of the language goes on afterwards, as does the end of the program.
-/

namespace Lisplet

/-- A piece of source text that is being worked on, and the number of its first line. -/
structure Passage where
  code : String
  line : Int
  deriving DecidableEq, Repr

/-- The line number of an error in a passage: that of the offending line if the error was found in the
code of the passage, else that of its first line. -/
def Passage.lineOf (passage : Passage) (error : Error) : Int :=
  if error.source = passage.code then
    passage.line + Text.countBreaks passage.code.toList error.start
  else passage.line

/-- The error has a place in a text that may be shown. -/
def Error.isDiagnosed (error : Error) : Bool :=
  !error.internal && !error.source.isEmpty && error.diagnosed

/-- The state of the console. Paths are kept in the order in which they were first registered. -/
structure Console where
  colored : Bool := false
  /-- Whether an error ends the program. -/
  fatal : Bool := true
  passages : List (String × Option Passage) := []
  /-- What was printed, piece by piece. -/
  output : Array String := #[]
  deriving DecidableEq, Inhabited

/-- An operation on the console. -/
abbrev Reporting (α : Type) := ExceptT Fault (StateM Console) α

namespace Console

/-- Everything that was printed. -/
def printed (console : Console) : String :=
  String.join console.output.toList

/-- Print a text as it is. -/
def write (text : String) (console : Console) : Console :=
  { console with output := console.output.push text }

/-- Print a text and end the line. -/
def writeLine (text : String) (console : Console) : Console :=
  console.write (text ++ "\n")

/-- Set the passage of a path; a new path goes to the end. -/
def assign (path : String) (passage : Option Passage) :
    List (String × Option Passage) → List (String × Option Passage)
  | [] => [(path, passage)]
  | entry :: entries =>
    if entry.1 = path then (path, passage) :: entries
    else entry :: assign path passage entries

/-- Register a path without a passage, or forget the passage of a path. -/
def clearPassage (path : String) (console : Console) : Console :=
  { console with passages := assign path none console.passages }

/-- Register the passage of a path that is being worked on. -/
def setPassage (path : String) (passage : Passage) (console : Console) : Console :=
  { console with passages := assign path (some passage) console.passages }

/-- The first path, in the order of registration, that has a passage. -/
def current? (console : Console) : Option (String × Passage) :=
  console.passages.findSome? fun entry => entry.2.map fun passage => (entry.1, passage)

variable [Host]

/-- Where an error happened, as far as the console knows. -/
def location (console : Console) (error : Error) : String :=
  match console.current? with
  | none => ""
  | some (path, passage) =>
    Style.emphasis.paint console.colored
      (path ++ ":" ++ toString (passage.lineOf error) ++ ": ")

/-- Print the headline of an error and its diagnosis. Each is complete before it is printed, so a message
that breaks down leaves the console as it was. -/
def announce (error : Error) (style : Style) (headline : String) : Reporting Unit := do
  let console ← get
  match error.styled console.colored with
  | .error fault => throw fault
  | .ok message =>
    modify (writeLine (console.location error ++ headline ++ message))
    if error.isDiagnosed then
      match error.diagnosis style console.colored with
      | .error fault => throw fault
      | .ok diagnosis => modify (writeLine diagnosis)

/-- Print a warning. -/
def warn (error : Error) : Reporting Unit := do
  let colored := (← get).colored
  announce error Style.warning (Style.warning.paint colored "warning: ")

/-- Print an error, then end the program or forget all passages. -/
def report (error : Error) : Reporting Unit := do
  let colored := (← get).colored
  let origin := if error.internal then Style.error.paint colored "[internal] " else ""
  announce error Style.error (origin ++ Style.error.paint colored "error: ")
  if (← get).fatal then throw (.exit (some 1))
  else
    modify fun console =>
      { console with passages := console.passages.map fun entry => (entry.1, none) }

/-- Print an evaluation step. -/
def showStep (step : Step) : Reporting Unit := do
  let colored := (← get).colored
  match step.line with
  | .ok line => modify (writeLine (Style.step.paint colored line))
  | .error fault => throw fault

/-- What the console does with a fault that reaches it. -/
def settle (fault : Fault) : Reporting Unit :=
  match fault with
  | .error error => report error
  | .interrupt => report (.general "keyboard interrupt")
  | .exhausted => report (.general "maximum recursion depth exceeded")
  | .exit code => throw (.exit code)
  | .breakdown breakdown =>
    match breakdown.message with
    | .error inner => throw inner
    | .ok message => do
      let text := "unknown error: '" ++ breakdown.label ++ ": " ++ message ++ "'"
      report { Error.general text with internal := true }
      throw fault

/-- Run an operation and settle its fault. -/
def guarded (action : Reporting Unit) : Reporting Unit :=
  tryCatch action settle

end Console

end Lisplet
