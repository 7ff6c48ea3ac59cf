import Lisplet.Limit
import Lisplet.Text.Numeral
import Lisplet.Text.Quoted

/-!
The command line.

The program takes one optional file and three options. Long options may be abbreviated as long as they
stay unambiguous, a value may be joined to its option by an equals sign, and `--` ends the options. An
argument that looks like a negative number, or that has a space in it, is a value.

* `CommandLine.parse`: what the arguments ask for.
-/

namespace Lisplet.CommandLine

/-- The options. -/
inductive Flag where
  | help
  | maxDepth
  | trace
  deriving DecidableEq, Repr

/-- The settings that the arguments choose. -/
structure Options where
  file : Option String := none
  maxDepth : Option Limit := none
  trace : Bool := false
  deriving DecidableEq, Repr

/-- What the arguments ask for. -/
inductive Request where
  | run (options : Options)
  | help
  /-- The arguments are wrong, for the given reason. -/
  | misuse (reason : String)
  deriving DecidableEq, Repr

/-- All spellings of the options, in the order in which they are searched. -/
def spellings : List (String × Flag) :=
  [("-h", .help), ("--help", .help), ("--max-depth", .maxDepth), ("--trace", .trace)]

/-- The name of an option in a message. -/
def Flag.label : Flag → String
  | .help => "-h/--help"
  | .maxDepth => "--max-depth"
  | .trace => "--trace"

/-- An option as it was written, with the value joined to it, if there is one. -/
structure Written where
  flag : Flag
  /-- Whether the option was written with a single dash. -/
  short : Bool := false
  value : Option String := none
  deriving DecidableEq, Repr

/-- What an argument is. -/
inductive Mark where
  | value (text : String)
  | option (written : Written)
  /-- It looks like an option that does not exist. -/
  | unknown (text : String)
  /-- The end of the options. -/
  | terminator
  deriving DecidableEq, Repr

/-- The parts of a text in front of and behind the first equals sign, if there is one. -/
def splitEquals (text : String) : String × Option String :=
  let chars := text.toList
  let front := String.ofList (chars.takeWhile (· != '='))
  match chars.dropWhile (· != '=') with
  | [] => (front, none)
  | _ :: back => (front, some (String.ofList back))

/-- One or more digits, and at most one line break behind them. -/
def isDigitLine (chars : List Char) : Bool :=
  let isDigit (char : Char) : Bool := (Text.digitValue? char).isSome
  let rest := chars.dropWhile isDigit
  chars.any isDigit && (rest = [] || rest = ['\n'])

/-- A text made of a dash and a number with or without a point. A line break may end it. -/
def looksNegative (text : String) : Bool :=
  match text.toList with
  | '-' :: number =>
    match number.dropWhile fun char => (Text.digitValue? char).isSome with
    | '.' :: fraction => isDigitLine fraction
    | _ => isDigitLine number
  | _ => false

/-- The option that is spelled exactly like this. -/
def exactly? (text : String) : Option Flag :=
  spellings.lookup text

/-- A dash and a letter that is not a full option: the letter is an option of its own if it is the one
for help, and the rest of the text is joined to it. -/
def markShort (text : String) : Option Written :=
  match text.toList with
  | '-' :: 'h' :: rest => some { flag := .help, short := true, value := some (String.ofList rest) }
  | _ => none

/-- The options that a text with two dashes abbreviates, with the spelling of each. -/
def abbreviated (front : String) : List (String × Flag) :=
  spellings.filter fun spelling => front.toList.isPrefixOf spelling.1.toList

/-- What an argument is that begins with a dash and is not one of the spellings. -/
def markDashed (text : String) : Except String Mark :=
  let (front, back) := splitEquals text
  let otherwise : Mark :=
    if looksNegative text || text.toList.contains ' ' then .value text else .unknown text
  match exactly? front, back with
  | some flag, some value =>
    .ok (.option { flag, short := front.length = 2, value := some value })
  | _, _ =>
    if "--".toList.isPrefixOf text.toList then
      match abbreviated front with
      | [] => .ok otherwise
      | [(_, flag)] => .ok (.option { flag, value := back })
      | several =>
        .error ("ambiguous option: " ++ text ++ " could match "
          ++ ", ".intercalate (several.map (·.1)))
    else
      match markShort text with
      | some written => .ok (.option written)
      | none => .ok otherwise

/-- What an argument is. -/
def mark (text : String) : Except String Mark :=
  if text = "--" then .ok .terminator
  else if !"-".toList.isPrefixOf text.toList then .ok (.value text)
  else
    match exactly? text with
    | some flag => .ok (.option { flag, short := text.length = 2 })
    | none => if text = "-" then .ok (.value text) else markDashed text

/-- What the arguments are. Behind the end of the options there are only values. -/
def markAll : List String → Except String (List Mark)
  | [] => .ok []
  | text :: texts => do
    match ← mark text with
    | .terminator => return .terminator :: texts.map .value
    | other => return other :: (← markAll texts)

/-- The state of the reading of the arguments: the options so far, and the arguments that are left
over. -/
structure State where
  options : Options := {}
  extras : List String := []

/-- Why a value joined to an option that takes none is wrong. -/
def ignored (flag : Flag) (value : String) : String :=
  "argument " ++ flag.label ++ ": ignored explicit argument " ++ Text.quote value

/-- What a short request for help asks for when a text is joined to it: each letter of the text has to
repeat the request, and the text from the first other letter on is refused. -/
def shortHelp : List Char → Request
  | ['h'] => .help
  | 'h' :: rest => shortHelp rest
  | other => .misuse (ignored .help (String.ofList other))

/-- The limit that the value of its option denotes. The mark that ends the options is no value, so the
limit is void if that mark is joined to the option. -/
def limitOf (value : String) : Except String Limit :=
  if value = "--" then .ok .void
  else match Text.integer? value with
  | some number => .ok (.levels number)
  | none =>
    .error ("argument " ++ Flag.maxDepth.label ++ ": invalid int value: " ++ Text.quote value)

/-- Read the arguments in order. The first value is the file, and an end of the options right behind it
belongs to it; further values are left over. -/
def readAll (state : State) : List Mark → Request
  | [] =>
    if state.extras.isEmpty then .run state.options
    else .misuse ("unrecognized arguments: " ++ " ".intercalate state.extras)
  | .unknown text :: marks => readAll { state with extras := state.extras ++ [text] } marks
  | .value text :: .terminator :: marks =>
    if state.options.file.isSome then
      readAll { state with extras := state.extras ++ [text, "--"] } marks
    else readAll { state with options := { state.options with file := some text } } marks
  | .value text :: marks =>
    if state.options.file.isSome then
      readAll { state with extras := state.extras ++ [text] } marks
    else readAll { state with options := { state.options with file := some text } } marks
  | .terminator :: marks =>
    if state.options.file.isSome then
      readAll { state with extras := state.extras ++ ["--"] } marks
    else readAll state marks
  | .option written :: marks =>
    match written.flag, written.value with
    | .trace, none => readAll { state with options := { state.options with trace := true } } marks
    | .help, none => .help
    | .trace, some value => .misuse (ignored .trace value)
    | .help, some value =>
      if written.short then shortHelp value.toList
      else .misuse (ignored .help value)
    | .maxDepth, some value =>
      match limitOf value with
      | .error reason => .misuse reason
      | .ok limit =>
        readAll { state with options := { state.options with maxDepth := some limit } } marks
    | .maxDepth, none =>
      match marks with
      | .value value :: rest =>
        match limitOf value with
        | .error reason => .misuse reason
        | .ok limit =>
          readAll { state with options := { state.options with maxDepth := some limit } } rest
      | _ => .misuse ("argument " ++ Flag.maxDepth.label ++ ": expected one argument")

/-- What the arguments ask for. -/
def parse (args : List String) : Request :=
  match markAll args with
  | .ok marks => readAll {} marks
  | .error reason => .misuse reason

/-- The usage line. -/
def usage : String :=
  "usage: parens [-h] [--max-depth MAX_DEPTH] [--trace] [file]"

/-- The answer to a request for help. -/
def helpText : String :=
  "\n".intercalate
    [usage,
      "",
      "positional arguments:",
      "  file                  file to interpret and run (if empty, goes to command-",
      "                        line mode)",
      "",
      "options:",
      "  -h, --help            show this help message and exit",
      "  --max-depth MAX_DEPTH",
      "                        maximum nesting depth when reading and evaluating",
      "  --trace               print every evaluated list with its value",
      ""]

/-- The answer to wrong arguments. -/
def complaint (reason : String) : String :=
  usage ++ "\nparens: error: " ++ reason ++ "\n"

end Lisplet.CommandLine
