import Lisplet.Error.Message
import Lisplet.Store

/-!
What evaluation acts on.

An `Action` changes a `World`, which holds the store and the steps recorded so far, and gives a value or
a fault. The world an action leaves behind is kept when it fails.
-/

namespace Lisplet

/-- One evaluated list, with the depth it was evaluated at. -/
structure Step where
  depth : Int
  expr : Expr
  value : Expr
  deriving DecidableEq, Repr, Inhabited

/-- The line that shows a step, indented by its depth. -/
def Step.line [Host] (step : Step) : Except Fault String := do
  let indent ← padding 0 "  " step.depth
  let expr ← step.expr.printed
  let value ← step.value.printed
  return indent ++ expr ++ " => " ++ value

/-- What becomes of the evaluated lists. -/
inductive Tracing where
  /-- They are not recorded. -/
  | off
  /-- They are recorded. -/
  | recorded
  /-- They are recorded to be shown, so one that cannot be shown is a fault. -/
  | shown
  deriving DecidableEq, Repr

/-- The store and the steps recorded so far. -/
structure World where
  store : Store
  steps : Array Step := #[]
  deriving DecidableEq, Inhabited

/-- A change of the world that gives a value or a fault. -/
abbrev Action (α : Type) := ExceptT Fault (StateM World) α

namespace Action

/-- Fail with an error that has no place in a text. -/
def fail {α : Type} (kind : ErrorKind) (args : List Arg) : Action α :=
  throw (.error { kind, args })

/-- The value of a name in the chain of a scope. -/
def lookup (scope : Nat) (name : String) : Action Expr := do
  match (← get).store.lookup? scope name with
  | some value => return value
  | none => fail .notFound [.text name]

/-- Bind a name in a scope. -/
def bindName (scope : Nat) (name : String) (value : Expr) : Action Unit :=
  modify fun world => { world with store := world.store.bind scope name value }

/-- Create a scope and give its number. -/
def createScope (bindings : List (String × Expr)) (parent : Nat) : Action Nat := do
  let world ← get
  set { world with store := world.store.create bindings (some parent) }
  return world.store.size

/-- Record a step. -/
def record (step : Step) : Action Unit :=
  modify fun world => { world with steps := world.steps.push step }

/-- Record a step as the tracing asks for. -/
def trace [Host] (tracing : Tracing) (step : Step) : Action Unit :=
  match tracing with
  | .off => return
  | .recorded => record step
  | .shown =>
    match step.line with
    | .ok _ => record step
    | .error fault => throw fault

end Action

end Lisplet
