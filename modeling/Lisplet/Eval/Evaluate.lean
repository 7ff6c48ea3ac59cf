import Lisplet.Eval.Native

/-!
Evaluation.

Literals and functions evaluate to themselves, identifiers to what they are bound to, and a non-empty
list is an application: its head must evaluate to a function, the other items are evaluated from left to
right, and the function is called with their values.

Every evaluation happens at a depth, which may not exceed the limit, and takes a level of the stack. The
recursion is on the levels that are left. The depth is counted up, compared with the limit and recorded in
steps.

* `Expr.evalForm`: one level of evaluation.
* `Expr.evalWithin`: evaluation with a given number of levels left.
* `Expr.eval`: evaluation at a depth, with the whole stack.
* `Expr.apply`: a function applied to evaluated arguments.
-/

namespace Lisplet

/-- How expressions are evaluated. -/
structure Settings where
  limit : Int := defaultLimit
  tracing : Tracing := .off
  deriving DecidableEq, Repr

namespace Expr

/-- Apply a function to evaluated arguments, where `run` evaluates the body of a closure in the scope
that is created for the call, and `room` levels of the stack are left. -/
def applyWith (run : Nat → Expr → Action Expr) (room scope : Nat) (function : Expr)
    (args : List Expr) : Action Expr :=
  match function with
  | .native builtin => builtin.call room scope args
  | .closure params body home name => do
    if args.length ≠ params.length then
      Action.fail .arityMismatch [.text name, .number params.length, .number args.length]
    else
      let inner ← Action.createScope (params.zip args) home
      run inner body
  | other => Action.fail .notAFunction [.expr other]

variable [Host]

/-- Evaluate an expression in a scope, where `run` evaluates one level further down, with `room` levels
left there. -/
def evalForm (tracing : Tracing) (run : Nat → Expr → Action Expr) (room : Nat) (depth : Int)
    (scope : Nat) : Expr → Action Expr
  | .identifier name => Action.lookup scope name
  | .list [] => Action.fail .emptyList []
  | .list (head :: rest) => do
    let function ← run scope head
    if function.isFunction then
      let args ← rest.mapM (run scope)
      let value ← applyWith run room scope function args
      Action.trace tracing ⟨depth, .list (head :: rest), value⟩
      return value
    else Action.fail .notAFunction [.expr function]
  | other => return other

/-- Evaluate an expression in a scope at a depth, with the given number of levels left. -/
def evalWithin (settings : Settings) : Nat → Int → Nat → Expr → Action Expr
  | 0, _, _, _ => throw .exhausted
  | room + 1, depth, scope, expr =>
    if settings.limit < depth then Action.fail .evaluationTooDeep [.number settings.limit]
    else evalForm settings.tracing (evalWithin settings room (depth + 1)) room depth scope expr

theorem evalWithin_beyond {settings : Settings} {depth : Int} (beyond : settings.limit < depth)
    (room scope : Nat) (expr : Expr) :
    evalWithin settings (room + 1) depth scope expr =
      Action.fail .evaluationTooDeep [.number settings.limit] :=
  if_pos beyond

theorem evalWithin_below {settings : Settings} {depth : Int} (below : depth ≤ settings.limit)
    (room scope : Nat) (expr : Expr) :
    evalWithin settings (room + 1) depth scope expr =
      evalForm settings.tracing (evalWithin settings room (depth + 1)) room depth scope expr :=
  if_neg (Int.not_lt.mpr below)

/-- Evaluate an expression in a scope at a depth. -/
def eval (settings : Settings) (depth : Int) (scope : Nat) (expr : Expr) : Action Expr :=
  evalWithin settings Host.stackLevels depth scope expr

/-- Apply a function to evaluated arguments at a depth. -/
def apply (settings : Settings) (depth : Int) (scope : Nat) (function : Expr) (args : List Expr) :
    Action Expr :=
  applyWith (eval settings (depth + 1)) Host.stackLevels scope function args

end Expr

end Lisplet
