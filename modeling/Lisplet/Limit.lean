import Lisplet.Error.Basic
import Lisplet.Form.Reading

/-!
The limit on nesting that a session is given.

A limit is a number of levels, or it is void: then it was asked for without a number, and no depth can be
compared with it. Reading compares the depth of every list with the limit, and evaluation that of every
expression, so below a void limit the first of them breaks down.

* `Limit.number`: the number of levels to read and evaluate with. For a void limit it is one below all
  depths, so that the first comparison fails.
* `Limit.amend`: a fault as the limit has it. Below a void limit the failed comparison is the breakdown.
-/

namespace Lisplet

/-- The limit of a session on the nesting of lists. -/
inductive Limit where
  | levels (number : Int)
  /-- A limit without a number. -/
  | void
  deriving DecidableEq, Repr

/-- An error that says that the limit is exceeded. -/
def Error.isTooDeep (error : Error) : Bool :=
  error.kind = .nestingTooDeep || error.kind = .evaluationTooDeep

namespace Limit

/-- The limit of a session that is given none. -/
def standard : Limit := .levels defaultLimit

/-- The number of levels. No depth fits below a void limit. -/
def number : Limit → Int
  | .levels number => number
  | .void => -1

/-- A fault of reading or evaluating below a limit. A void limit is not exceeded: it cannot be compared
with. -/
def amend (limit : Limit) (fault : Fault) : Fault :=
  match limit, fault with
  | .void, .error error => if error.isTooDeep then .breakdown .voidLimit else fault
  | _, _ => fault

/-- A limit with a number leaves all faults as they are. -/
@[simp]
theorem amend_levels (number : Int) (fault : Fault) : (levels number).amend fault = fault := rfl

end Limit

end Lisplet
