import Lisplet.Session

/-!
The interactive shell.

A line is either a command of the shell or source text. The lines of a form that goes on are collected
until the form is complete; then it is read, evaluated and printed. Faults are settled by the console of
the session, so that the shell goes on with the next line.

* `Shell`: the state of a shell, with the prompt for the next line.
* `Shell.parse`: what a line asks for.
* `Shell.enter`: a line of source text.
* `Shell.respond`: any line.
* `Shell.converse`: a whole conversation, from the greeting to the end of the input.
-/

namespace Lisplet

/-- The prompt for a new form. -/
def Shell.primaryPrompt : String := "> "

/-- The prompt for the next line of a form that goes on. -/
def Shell.secondaryPrompt : String := ". "

/-- The state of a shell. -/
structure Shell where
  session : Session
  /-- The prompt for the next line. -/
  prompt : String := Shell.primaryPrompt
  /-- The lines of an incomplete form. -/
  pending : String := ""
  /-- The number of the first line of the form read last. -/
  firstLine : Nat := 0
  /-- The number of lines of source text so far. -/
  lineCount : Nat := 0
  deriving DecidableEq

/-- An operation on a shell. -/
abbrev ShellAction (α : Type) := ExceptT Fault (StateM Shell) α

/-- What a line asks for. -/
inductive Command where
  | nothing
  | help
  | quit
  | endOfInput
  | source (line : String)
  deriving DecidableEq, Repr

/-- How a shell answers a line. -/
inductive Reply where
  /-- The line was dealt with. -/
  | handled
  /-- There was nothing to do. -/
  | idle
  /-- The conversation ends. -/
  | stop
  deriving DecidableEq, Repr

namespace Shell

/-- The text that opens a conversation. -/
def greeting : String :=
  "Parens interpreter :: Python backend\nType '?' or 'help' for more information."

/-- The answer to a request for help. -/
def helpText : String :=
  "\n".intercalate
    ["Welcome to the parens interpreter!",
      "",
      "Every line is read as one or more forms: literals (1, 2.5, \"text\") evaluate to ",
      "themselves, identifiers are looked up, and (f a b) calls f with a and b.",
      "",
      "Builtins: + - * identity str list def fn",
      "",
      "Try it out by typing '(def \"add\" (fn \"x y\" \"(+ x y)\"))'. This will bind a ",
      "function of x and y to 'add'. Next, try typing '(add 1 2)', giving 3 as the result."]

/-- The characters of the word that may name a command. -/
def isCommandChar (char : Char) : Bool :=
  char.isAlphanum || char = '_'

/-- What a line asks for. The blanks around it do not count. A question mark asks for help; otherwise
the word at the start of the line decides, whatever follows it. -/
def parse (line : String) : Command :=
  let line := Text.strip line
  match line.toList with
  | [] => .nothing
  | '?' :: _ => .help
  | chars =>
    let word := String.ofList (chars.takeWhile isCommandChar)
    if word = "help" then .help
    else if word = "exit" then .quit
    else if word = "EOF" then .endOfInput
    else .source line

/-- An operation on the session of a shell. -/
def onSession {α : Type} (action : SessionAction α) : ShellAction α := do
  let shell ← get
  let (result, session) := action.run shell.session
  set { shell with session }
  match result with
  | .ok value => return value
  | .error fault => throw fault

/-- Print a text as it is. -/
def write (text : String) : ShellAction Unit :=
  onSession (Session.modifyConsole (Console.write text))

/-- Print a text and end the line. -/
def writeLine (text : String) : ShellAction Unit :=
  onSession (Session.modifyConsole (Console.writeLine text))

/-- Count a line of source text. -/
def countLine (shell : Shell) : Shell :=
  let count := shell.lineCount + 1
  { shell with
    lineCount := count
    firstLine := if shell.pending.isEmpty then count else shell.firstLine }

variable [Host]

/-- Read and evaluate a complete chunk. Forms and results that an earlier failure left behind are
dropped first. -/
def runChunk (code : String) (line : Nat) : SessionAction Unit := do
  modify fun session => { session with queue := [], results := #[] }
  discard (Session.add code line)
  Session.runAndShow

/-- Take in a line of source text: keep it if it leaves a form incomplete, else run what is pending. The
prompt says which. -/
def takeIn (line : String) : ShellAction Unit := do
  modify countLine
  let shell ← get
  let code := Chunk.joinLine shell.pending line
  if isIncomplete code then set { shell with pending := code, prompt := secondaryPrompt }
  else
    set { shell with pending := "", prompt := primaryPrompt }
    onSession (runChunk code shell.firstLine)

/-- Take in a line of source text and let the console settle its fault. -/
def enter (line : String) : ShellAction Unit :=
  tryCatch (takeIn line) fun fault => onSession (Session.onConsole (Console.settle fault))

/-- Answer a line. An empty line belongs to the form that is pending, if there is one. -/
def respond (line : String) : ShellAction Reply := do
  match parse line with
  | .nothing =>
    if (← get).pending.isEmpty then return .idle
    else
      enter ""
      return .handled
  | .help =>
    writeLine helpText
    return .handled
  | .quit => return .stop
  | .endOfInput =>
    writeLine ""
    return .stop
  | .source line =>
    enter line
    return .handled

/-- Ask for a line and answer it. -/
def ask (line : String) : ShellAction Reply := do
  write (← get).prompt
  respond line

/-- Answer lines until one ends the conversation. The end of the lines is answered like a line that
asks for it. -/
def answerAll : List String → ShellAction Unit
  | [] => discard (ask "EOF")
  | line :: lines => do
    match ← ask line with
    | .stop => return
    | _ => answerAll lines

/-- A whole conversation. -/
def converse (lines : List String) : ShellAction Unit := do
  writeLine greeting
  answerAll lines

end Shell

end Lisplet
