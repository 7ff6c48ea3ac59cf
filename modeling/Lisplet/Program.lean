import Lisplet.CommandLine
import Lisplet.Shell
import Lisplet.Terminal

/-!
The program as a whole.

`Program.run` takes the arguments, the files and the lines of standard input, and gives what is printed
and how the program ends. A file is read as a whole before any of its forms is evaluated; without a file
the program converses with the user. It does so on any host; the executable runs on a terminal.
-/

namespace Lisplet

/-- What a run of the program shows. -/
structure Outcome where
  result : Except Fault Unit
  output : String := ""
  complaint : String := ""

namespace Program

variable [Host]

/-- The outcome of a session whose operation ended with `result`, once the console has settled it. -/
def conclude (session : Session) (result : Except Fault Unit) : Outcome :=
  match result with
  | .ok _ => { result := .ok (), output := session.console.printed }
  | .error fault =>
    let (settled, console) := (Console.settle fault).run session.console
    { result := settled, output := console.printed }

/-- The limit that the options choose. -/
def limit (options : CommandLine.Options) : Limit :=
  options.maxDepth.getD .standard

/-- Read a file, evaluate its forms and print their values. -/
def runFile (colored : Bool) (options : CommandLine.Options) (path : String)
    (content : Option (List Nat)) : Outcome :=
  let session := Session.start { colored } path false (limit options) options.trace
  let action : SessionAction Unit := do
    Session.load content
    Session.runAndShow
  let (result, final) := action.run session
  conclude final result

/-- A shell at the start of a conversation. -/
def startShell (colored : Bool) (options : CommandLine.Options) : Shell :=
  { session := Session.start { colored } Session.interactivePath true (limit options)
      options.trace }

/-- Converse with a user who enters the given lines. -/
def runShell (colored : Bool) (options : CommandLine.Options) (lines : List String) : Outcome :=
  let (result, final) := (Shell.converse lines).run (startShell colored options)
  conclude final.session result

/-- Run the program. -/
def run (colored : Bool) (files : String → Option (List Nat)) (lines : List String)
    (args : List String) : Outcome :=
  match CommandLine.parse args with
  | .help => { result := .error (.exit (some 0)), output := CommandLine.helpText }
  | .misuse reason =>
    { result := .error (.exit (some 2)), complaint := CommandLine.complaint reason }
  | .run options =>
    match options.file with
    | some path => runFile colored options path (files path)
    | none => runShell colored options lines

end Program

end Lisplet
