import Lisplet.Program

/-!
The executable: reads the file or the lines of the user, and prints what the library answers.
-/

namespace Lisplet

/-- What a file holds; none if it cannot be opened. -/
def readOctets (path : String) : IO (Option (List Nat)) := do
  try
    let content ← IO.FS.readBinFile path
    return some (content.toList.map UInt8.toNat)
  catch _ => return none

/-- Print an outcome and give the exit code of the program. -/
def finish (outcome : Outcome) : IO UInt32 := do
  IO.print outcome.output
  IO.eprint outcome.complaint
  match outcome.result with
  | .ok _ => return 0
  | .error (.exit code) => return UInt32.ofNat (code.getD 0).toNat
  | .error _ => return 1

/-- Print what a shell has collected and let it start afresh. -/
def flushShell (shell : Shell) : IO Shell := do
  IO.print shell.session.console.printed
  (← IO.getStdout).flush
  let console := { shell.session.console with output := #[] }
  return { shell with session := { shell.session with console } }

/-- Run an operation of a shell and print what it collects. -/
def perform {α : Type} (action : ShellAction α) (shell : Shell) : IO (Except Fault α × Shell) := do
  let (result, after) := action.run shell
  return (result, ← flushShell after)

/-- Answer the lines of the user until the conversation ends. -/
partial def converse (shell : Shell) : IO (Except Fault Unit × Shell) := do
  let (_, asking) ← perform (Shell.write shell.prompt) shell
  let line ← (← IO.getStdin).getLine
  let text := if line.isEmpty then "EOF" else Text.dropFinalBreaks line
  let (reply, after) ← perform (Shell.respond text) asking
  match reply with
  | .ok .stop => return (.ok (), after)
  | .ok _ => converse after
  | .error fault => return (.error fault, after)

end Lisplet

open Lisplet in
/-- Run the program on the arguments of the command line. -/
def main (args : List String) : IO UInt32 := do
  let colored ← (← IO.getStdout).isTty
  match CommandLine.parse args with
  | .run options =>
    match options.file with
    | some path => finish (Program.runFile colored options path (← readOctets path))
    | none =>
      let (_, greeted) ← perform (Shell.writeLine Shell.greeting)
        (Program.startShell colored options)
      let (result, final) ← converse greeted
      finish (Program.conclude final.session result)
  | _ => finish (Program.run colored (fun _ => none) [] args)
