import Lisplet.Chunk
import Lisplet.Console
import Lisplet.Eval.Evaluate
import Lisplet.Limit

/-!
Sessions.

A session reads source text into a queue of forms and evaluates them in one root scope. A form leaves
the queue before it is evaluated, so one that fails is never run twice.

* `Session.start`: a fresh session.
* `Session.load`: read the forms of a file.
* `Session.add`: read forms into the queue.
* `Session.run`: evaluate the queued forms in order.
* `Session.guarded`: let the console settle the fault of an operation.
-/

namespace Lisplet

/-- A form to be evaluated, with the passage it was read from. -/
structure Queued where
  passage : Passage
  form : Expr
  deriving DecidableEq

/-- The state of a session. -/
structure Session where
  console : Console
  path : String
  /-- Whether lines are read from a user instead of a file. -/
  interactive : Bool
  limit : Limit := .standard
  /-- Whether evaluation steps are shown. -/
  traced : Bool := false
  store : Store := .initial
  queue : List Queued := []
  results : Array Expr := #[]
  /-- What was given to read so far, whether it could be read or not. -/
  received : Array Passage := #[]
  deriving DecidableEq

/-- An operation on a session. -/
abbrev SessionAction (α : Type) := ExceptT Fault (StateM Session) α

namespace Session

/-- The path that stands for the lines of a user. -/
def interactivePath : String := "<in>"

/-- The number of the root scope. -/
def rootScope : Nat := 0

/-- A fresh session. In an interactive one errors do not end the program. -/
def start (console : Console) (path : String) (interactive : Bool) (limit : Limit) (traced : Bool) :
    Session :=
  let registered := console.clearPassage path
  { console := { registered with fatal := registered.fatal && !interactive }
    path, interactive, limit, traced }

/-- An operation on the console of a session. -/
def onConsole {α : Type} (action : Reporting α) : SessionAction α := do
  let session ← get
  let (result, console) := action.run session.console
  set { session with console }
  match result with
  | .ok value => return value
  | .error fault => throw fault

/-- Change the console of a session. -/
def modifyConsole (change : Console → Console) : SessionAction Unit :=
  modify fun session => { session with console := change session.console }

/-- Register the passage that is being worked on. -/
def setPassage (passage : Passage) : SessionAction Unit :=
  modify fun session =>
    { session with console := session.console.setPassage session.path passage }

/-- Forget the passage that was being worked on. -/
def clearPassage : SessionAction Unit :=
  modify fun session => { session with console := session.console.clearPassage session.path }

/-- Take note of a passage that is given to read. -/
def receive (passage : Passage) : SessionAction Unit :=
  modify fun session => { session with received := session.received.push passage }

/-- Read all forms of a text and queue them. If the text has a flaw, nothing is queued and the passage
stays registered. -/
def add (code : String) (line : Int) : SessionAction (List Expr) := do
  let passage : Passage := ⟨code, line⟩
  receive passage
  setPassage passage
  let limit := (← get).limit
  let reading := Reading.ofText limit.number code
  match reading.flaw with
  | some flaw => throw (limit.amend (.error (flaw.toError code)))
  | none =>
    modify fun session =>
      { session with queue := session.queue ++ reading.forms.map (Queued.mk passage) }
    clearPassage
    return reading.forms

variable [Host]

/-- Evaluate a form in the root scope. Steps are shown if the session is traced. -/
def evaluate (form : Expr) : SessionAction Expr := do
  let session ← get
  let settings : Settings :=
    { limit := session.limit.number, tracing := if session.traced then .shown else .off }
  let (result, world) := (form.eval settings 0 rootScope).run { store := session.store }
  set { session with store := world.store }
  onConsole (world.steps.toList.forM Console.showStep)
  match result with
  | .ok value => return value
  | .error fault => throw (session.limit.amend fault)

/-- Evaluate a queued form and keep its value. Its passage stays registered if it fails. -/
def runOne (queued : Queued) : SessionAction Unit := do
  setPassage queued.passage
  let value ← evaluate queued.form
  modify fun session => { session with results := session.results.push value }
  clearPassage

/-- Evaluate forms that make up the queue, in order. -/
def runAll : List Queued → SessionAction Unit
  | [] => return
  | queued :: rest => do
    modify fun session => { session with queue := rest }
    runOne queued
    runAll rest

/-- Evaluate the queued forms in order. -/
def run : SessionAction Unit := do
  runAll (← get).queue

/-- Remove and give the latest result. -/
def pop : SessionAction Expr := do
  let session ← get
  match session.results.back? with
  | some value =>
    set { session with results := session.results.pop }
    return value
  | none => throw (.breakdown .noResults)

/-- The value of a name in the root scope. -/
def lookup (name : String) : SessionAction Expr := do
  match ((Action.lookup rootScope name).run { store := (← get).store }).1 with
  | .ok value => return value
  | .error fault => throw fault

/-- Print the results in order, then forget them. -/
def showResults : SessionAction Unit := do
  (← get).results.toList.forM fun value =>
    match value.printed with
    | .ok text => modifyConsole (Console.writeLine text)
    | .error fault => throw fault
  modify fun session => { session with results := #[] }

/-- Run one operation and then another, whether or not the first one fails. A fault of the second one
takes the place of a fault of the first one. -/
def ensuring (action after : SessionAction Unit) : SessionAction Unit := fun session =>
  let (result, middle) := action.run session
  match after.run middle with
  | (.ok _, final) => (result, final)
  | (.error fault, final) => (.error fault, final)

/-- Evaluate the queued forms and print the values of those that were evaluated. -/
def runAndShow : SessionAction Unit :=
  ensuring run showResults

/-- The text of a file; none if it cannot be opened. -/
def decodeFile (path : String) (content : Option (List Nat)) : Except Fault String :=
  if path.toList.contains '\x00' then .error (.breakdown .nullInPath)
  else
    match content with
    | none => .error (.error { kind := .fileNotReadable, args := [.text path], diagnosed := false })
    | some octets =>
      match Utf8.decode octets with
      | .error fault => .error (.breakdown (.undecodable fault))
      | .ok text => .ok (String.ofList (Text.unifyBreaks text.toList))

/-- Read the forms of chunks into the queue. -/
def addChunks : List Chunk → SessionAction Unit
  | [] => return
  | chunk :: chunks => do
    discard (add chunk.code chunk.line)
    addChunks chunks

/-- Read the forms of the file of a session; `content` is what the file holds, none if it cannot be
opened. An interactive session has no file. -/
def load (content : Option (List Nat)) : SessionAction Unit := do
  let session ← get
  if session.path = interactivePath then
    if session.interactive then return
    else throw (.error (.general "'<in>' is a reserved filename"))
  else
    match decodeFile session.path content with
    | .error fault => throw fault
    | .ok text =>
      let chunks := Chunk.split (Text.lines text)
      if chunks.isEmpty then
        let message := "'" ++ session.path ++ "' contains no forms"
        onConsole (Console.warn { Error.general message with diagnosed := false })
      addChunks chunks

/-- Run an operation and let the console settle its fault. -/
def guarded (action : SessionAction Unit) : SessionAction Unit :=
  tryCatch action fun fault => onConsole (Console.settle fault)

end Session

end Lisplet
