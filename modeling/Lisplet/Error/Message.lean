import Lisplet.Error.Padding
import Lisplet.Expr.Printer

/-!
The texts of errors and breakdowns.

A message may itself break down: an argument may be an expression that cannot be printed, and there
may be fewer arguments than slots.

* `Expr.printed`: an expression as the console prints it.
* `Expr.printWithin`: one that is printed during an evaluation, on what is left of the stack.
* `Error.message`: the slots are filled from left to right, up to the first such failure.
* `Error.styled`: all arguments are printed first, also those that no slot asks for.
-/

namespace Lisplet

namespace Expr

/-- Printing that fails is a breakdown. -/
def printed (expr : Expr) : Except Fault String :=
  expr.print.mapError fun number => .breakdown (.floatRange number)

mutual

/-- The printed form of an expression, where the stack has room for `room` lists inside one another. -/
def printWithin : Nat → Expr → Except Fault String
  | 0, .list _ => .error .exhausted
  | room + 1, .list items => do
    let texts ← printAllWithin room items
    return "(" ++ " ".intercalate texts ++ ")"
  | _, other => other.printed

/-- The printed forms of several expressions, each with the same room. -/
def printAllWithin (room : Nat) : List Expr → Except Fault (List String)
  | [] => .ok []
  | first :: rest => do
    let text ← printWithin room first
    let texts ← printAllWithin room rest
    return text :: texts

end

/-- What an expression contributes to a text: a string its own characters, all else its printed
form. -/
def plain (room : Nat) : Expr → Except Fault String
  | .string text => .ok text
  | other => other.printWithin room

end Expr

/-- The printed form of an argument. -/
def Arg.print : Arg → Except Fault String
  | .text content => .ok content
  | .number value => .ok (toString value)
  | .expr value => value.printed

/-- The form of an argument inside a list of arguments: texts are quoted. -/
def Arg.quoted : Arg → Except Fault String
  | .text content => .ok (Text.quote content)
  | other => other.print

/-- Fill the slots of a template from left to right, the first one with argument `index`. -/
def Piece.fill (args : List (Except Fault String)) (index : Nat) : List Piece → Except Fault String
  | [] => .ok ""
  | .text content :: pieces => do return content ++ (← fill args index pieces)
  | .slot :: pieces =>
    match args with
    | [] => .error (.breakdown (.missingSlot index))
    | arg :: rest => do
      let text ← arg
      return text ++ (← fill rest (index + 1) pieces)

/-- The plain message of an error. -/
def Error.message (error : Error) : Except Fault String :=
  Piece.fill (error.args.map Arg.print) 0 error.kind.template

/-- The message of an error with every argument emphasised. -/
def Error.styled [Host] (error : Error) (colored : Bool) : Except Fault String := do
  let texts ← error.args.mapM Arg.print
  Piece.fill (texts.map fun text => .ok (Style.emphasis.paint colored text)) 0 error.kind.template

/-- The named arguments of an error; one that is missing breaks down. -/
def Error.payload (error : Error) : List (Field × Except Fault Arg) :=
  error.kind.fields.zipIdx.map fun (field, index) =>
    (field, match error.args[index]? with
      | some arg => .ok arg
      | none => .error (.breakdown .missingItem))

/-- The name of a class of breakdowns. -/
def BreakdownClass.label : BreakdownClass → String
  | .value => "ValueError"
  | .key => "KeyError"
  | .overflow => "OverflowError"
  | .index => "IndexError"
  | .type => "TypeError"

namespace Breakdown

/-- The name of the class of a breakdown. -/
def label : Breakdown → String
  | .integerRange _ | .floatRange _ | .countRange | .textLength => BreakdownClass.overflow.label
  | .missingSlot _ | .missingItem | .indexRange | .pastEnd | .noResults => BreakdownClass.index.label
  | .nullInPath => BreakdownClass.value.label
  | .voidLimit => BreakdownClass.type.label
  | .memory => "MemoryError"
  | .undecodable _ => "UnicodeDecodeError"
  | .stated kind _ => kind.label

/-- The text of stated arguments: nothing, the only one, or all of them in a list. The only argument of
a missing key is quoted. -/
def statedMessage (kind : BreakdownClass) : List Arg → Except Fault String
  | [] => .ok ""
  | [arg] => if kind = .key then arg.quoted else arg.print
  | args => do
    let texts ← args.mapM Arg.quoted
    return "(" ++ ", ".intercalate texts ++ ")"

/-- The message of a breakdown. -/
def message : Breakdown → Except Fault String
  | .integerRange value => .ok (toString value ++ " does not fit in a 32-bit integer")
  | .floatRange value => .ok (Double.scientific value ++ " does not fit in a 32-bit float")
  | .missingSlot index =>
    .ok ("Replacement index " ++ toString index ++ " out of range for positional args tuple")
  | .missingItem => .ok "tuple index out of range"
  | .indexRange | .countRange => .ok "cannot fit 'int' into an index-sized integer"
  | .textLength => .ok "repeated string is too long"
  | .memory => .ok ""
  | .pastEnd => .ok "string index out of range"
  | .voidLimit => .ok "'>' not supported between instances of 'int' and 'list'"
  | .noResults => .ok "pop from empty list"
  | .nullInPath => .ok "embedded null byte"
  | .undecodable fault => .ok fault.message
  | .stated kind args => statedMessage kind args

end Breakdown

/-- An integer expression; a value that does not fit in 32 bits breaks down. -/
def Expr.ofInt (value : Int) : Except Fault Expr :=
  match Expr.ofInt? value with
  | some expr => .ok expr
  | none => .error (.breakdown (.integerRange value))

/-- The float expression nearest to a 64-bit number; one that is too large breaks down. -/
def Expr.ofDouble (number : Double) : Except Fault Expr :=
  match Expr.ofDouble? number with
  | some expr => .ok expr
  | none => .error (.breakdown (.floatRange number))

/-- The item of a list at an index. An item that is not there breaks down, and an index outside the
64-bit range breaks down in its own way. -/
def Expr.item (items : List Expr) (index : Int) : Except Fault Expr :=
  match Expr.item? items index with
  | some expr => .ok expr
  | none => .error (.breakdown (if isIndex index then .missingItem else .indexRange))

end Lisplet
