import Lisplet.Eval.World
import Lisplet.Form.Params
import Lisplet.Form.Reading

/-!
The native functions.

`Builtin.call` applies a native function to evaluated arguments. Two of the functions see the scope they
are called in: `def` binds a name there, and `fn` makes a closure over it. The language has no special
forms, so both take names and bodies as strings.
-/

namespace Lisplet

namespace Builtin

/-- The number of arguments of a native function; none if it takes any number. -/
def arity? : Builtin → Option Nat
  | .add | .subtract | .multiply | .define | .function => some 2
  | .identity => some 1
  | .text | .list => none

/-- The integer operation of an arithmetic function. -/
def operation : Builtin → Int → Int → Int
  | .subtract => (· - ·)
  | .multiply => (· * ·)
  | _ => (· + ·)

/-- Fail because an argument is not what a function expects. -/
def mismatch {α : Type} (builtin : Builtin) (expected : String) (got : Expr) : Action α :=
  Action.fail .typeMismatch [.text builtin.name, .text expected, .expr got]

/-- An argument that must be an integer. -/
def expectInteger (builtin : Builtin) : Expr → Action Int
  | .integer value => return value
  | other => builtin.mismatch "integer operands" other

/-- An argument that must be a string. -/
def expectString (builtin : Builtin) (expected : String) : Expr → Action String
  | .string content => return content
  | other => builtin.mismatch expected other

/-- Arithmetic on two integers; a result outside 32 bits is an error. -/
def arithmetic (builtin : Builtin) (first second : Expr) : Action Expr := do
  let left ← builtin.expectInteger first
  let right ← builtin.expectInteger second
  match Expr.ofInt? (builtin.operation left right) with
  | some expr => return expr
  | none => Action.fail .integerOverflow [.text builtin.name]

/-- The texts that expressions contribute, joined, where the stack has room for `room` levels. -/
def joinTexts (room : Nat) : List Expr → Action String
  | [] => return ""
  | first :: rest => do
    match first.plain room with
    | .error fault => throw fault
    | .ok content => return content ++ (← joinTexts room rest)

/-- Give a closure that has no name yet the name it is bound to. -/
def named (name : String) : Expr → Expr
  | .closure params body scope old =>
    .closure params body scope (if old = Expr.anonymous then name else old)
  | other => other

/-- Bind a name in the calling scope. -/
def defineName (scope : Nat) (name value : Expr) : Action Expr := do
  let name ← Builtin.define.expectString "a string name" name
  let value := named name value
  Action.bindName scope name value
  return value

/-- The only form of a function body. -/
def readBody (body : String) : Action Expr := do
  let (result, after) := (Cursor.ofText body).readForm defaultLimit
  match result with
  | .error flaw => throw (.error (flaw.toError body))
  | .ok form =>
    if after.atEnd then return form
    else Builtin.function.mismatch "a body of exactly one form" (.string body)

/-- The parameter names of a function. -/
def paramNames (params : String) : Except Fault (List String) :=
  match params? params with
  | some names => .ok names
  | none =>
    .error (.error
      { kind := .typeMismatch,
        args := [.text Builtin.function.name, .text "distinct identifier parameter names",
          .expr (.string params)] })

/-- Make a closure over the calling scope. -/
def makeClosure (scope : Nat) (params body : Expr) : Action Expr := do
  let names ← Builtin.function.expectString "a string of parameter names" params
  let source ← Builtin.function.expectString "a string body" body
  let form ← readBody source
  match paramNames names with
  | .ok names => return .closure names form scope Expr.anonymous
  | .error fault => throw fault

/-- Apply a native function to evaluated arguments, where the stack has room for `room` levels. -/
def call (builtin : Builtin) (room scope : Nat) (args : List Expr) : Action Expr :=
  match builtin, args with
  | .text, args => do return .string (← joinTexts room args)
  | .list, args => return .list args
  | .identity, [value] => return value
  | .define, [name, value] => defineName scope name value
  | .function, [params, body] => makeClosure scope params body
  | .add, [first, second] => Builtin.add.arithmetic first second
  | .subtract, [first, second] => Builtin.subtract.arithmetic first second
  | .multiply, [first, second] => Builtin.multiply.arithmetic first second
  | builtin, args =>
    Action.fail .arityMismatch
      [.text builtin.name, .number (builtin.arity?.getD 0), .number args.length]

end Builtin

end Lisplet
