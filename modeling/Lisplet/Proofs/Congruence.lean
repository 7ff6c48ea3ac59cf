import Lisplet.Proofs.Frame
import Lisplet.Proofs.StackPrinting

/-!
Relations of actions that evaluation keeps.

Two evaluations of one expression that differ in their settings or their depth take the same steps until
one of them runs out of depth. So a relation of actions that holds of what they have in common, and is kept
when one action comes after another, holds of the evaluations of a list if it holds of all evaluations one
level further down.

* `Fault.NotTooDeep`: the faults that both evaluations may have in common.
* `Action.Congruence`: what is asked of a relation of actions.
* `Action.Congruence.call`, `Action.Congruence.applyWith`: native functions and closures.
* `Action.Congruence.evalForm`: one level of evaluation.
-/

namespace Lisplet

/-! ### Faults -/

/-- A fault that does not say that an evaluation is too deep. -/
def Fault.NotTooDeep (fault : Fault) : Prop :=
  ∀ error, fault = .error error → error.kind ≠ .evaluationTooDeep

theorem Fault.notTooDeep_error {error : Error} (other : error.kind ≠ .evaluationTooDeep) :
    (Fault.error error).NotTooDeep := by
  intro found same
  cases same
  exact other

theorem Fault.notTooDeep_of_kind {kind : ErrorKind} (other : kind ≠ .evaluationTooDeep)
    {args : List Arg} : (Fault.error { kind, args }).NotTooDeep :=
  notTooDeep_error other

theorem Fault.notTooDeep_breakdown (breakdown : Breakdown) :
    (Fault.breakdown breakdown).NotTooDeep := by
  intro found same
  cases same

theorem Fault.notTooDeep_exhausted : Fault.exhausted.NotTooDeep := by
  intro found same
  cases same

theorem Expr.notTooDeep_of_printed {expr : Expr} {fault : Fault}
    (stuck : expr.printed = .error fault) : fault.NotTooDeep := by
  obtain ⟨number, _, rfl⟩ := exists_of_printed stuck
  exact Fault.notTooDeep_breakdown _

theorem Expr.notTooDeep_of_plain {room : Nat} {arg : Expr} {fault : Fault}
    (stuck : arg.plain room = .error fault) : fault.NotTooDeep := by
  obtain rfl | unprinted := error_of_plain stuck
  · exact Fault.notTooDeep_exhausted
  · exact notTooDeep_of_printed unprinted

theorem Flaw.notTooDeep_toError (flaw : Flaw) (source : String) :
    (Fault.error (flaw.toError source)).NotTooDeep := by
  refine Fault.notTooDeep_error ?_
  show flaw.cause.kind ≠ _
  cases flaw.cause <;> simp [FlawCause.kind]

/-! ### Relations -/

namespace Action

/-- A relation that holds between an action and itself, as long as it neither runs out of depth nor records
anything, and is kept when one action comes after another. -/
structure Congruence (related : ∀ α : Type, Action α → Action α → Prop) : Prop where
  value {α : Type} (result : α) : related α (pure result) (pure result)
  fault {α : Type} {fault : Fault} (notTooDeep : fault.NotTooDeep) :
    related α (throw fault) (throw fault)
  next {α β : Type} {action other : Action α} {rest otherRest : α → Action β}
    (first : related α action other) (second : ∀ result, related β (rest result) (otherRest result)) :
    related β (action >>= rest) (other >>= otherRest)
  lookup (scope : Nat) (name : String) : related Expr (lookup scope name) (lookup scope name)
  bindName (scope : Nat) (name : String) (value : Expr) :
    related Unit (bindName scope name value) (bindName scope name value)
  createScope (bindings : List (String × Expr)) (parent : Nat) :
    related Nat (createScope bindings parent) (createScope bindings parent)

namespace Congruence

variable {related : ∀ α : Type, Action α → Action α → Prop}

theorem fail (congruence : Congruence related) {α : Type} {kind : ErrorKind}
    (other : kind ≠ .evaluationTooDeep) (args : List Arg) :
    related α (Action.fail kind args) (Action.fail kind args) :=
  congruence.fault (Fault.notTooDeep_of_kind other)

theorem mapM (congruence : Congruence related) {α β : Type} {items : List α} {act other : α → Action β}
    (each : ∀ item, related β (act item) (other item)) :
    related (List β) (items.mapM act) (items.mapM other) := by
  induction items with
  | nil => exact congruence.value []
  | cons first rest previous =>
    rw [List.mapM_cons, List.mapM_cons]
    refine congruence.next (each first) fun value => ?_
    exact congruence.next previous fun values => congruence.value _

/-- A native function does not see what two evaluations differ in. -/
theorem call (congruence : Congruence related) (builtin : Builtin) (room scope : Nat)
    (args : List Expr) :
    related Expr (builtin.call room scope args) (builtin.call room scope args) := by
  have rule := builtin.calls room scope args
  generalize builtin.call room scope args = action at rule
  cases rule with
  | wrongCount => exact congruence.fail (by decide) _
  | wrongType => exact congruence.fail (by decide) _
  | arithmetic => exact congruence.value _
  | overflow => exact congruence.fail (by decide) _
  | identity value => exact congruence.value value
  | text content => exact congruence.value _
  | unprintable _ stuck => exact congruence.fault (Expr.notTooDeep_of_plain stuck)
  | list args => exact congruence.value _
  | define name value =>
    exact congruence.next (congruence.bindName scope name _) fun _ => congruence.value _
  | flawedBody => exact congruence.fault (Flaw.notTooDeep_toError _ _)
  | closure => exact congruence.value _

theorem applyWith (congruence : Congruence related) {run otherRun : Nat → Expr → Action Expr}
    (body : ∀ scope expr, related Expr (run scope expr) (otherRun scope expr)) (room scope : Nat)
    (function : Expr) (args : List Expr) :
    related Expr (Expr.applyWith run room scope function args)
      (Expr.applyWith otherRun room scope function args) := by
  cases function with
  | native builtin => exact congruence.call builtin room scope args
  | closure params form home name =>
    simp only [Expr.applyWith]
    split
    · exact congruence.fail (by decide) _
    · refine congruence.next (congruence.createScope (params.zip args) home) fun inner => ?_
      exact body inner form
  | _ => exact congruence.fail (by decide) _

/-- One level of evaluation. The depths and the tracing of the two may differ, as long as the evaluations
one level further down are related, and the recording of a list. -/
theorem evalForm [Host] (congruence : Congruence related) {run otherRun : Nat → Expr → Action Expr}
    (inner : ∀ scope expr, related Expr (run scope expr) (otherRun scope expr))
    {tracing otherTracing : Tracing} {depth level : Int}
    (traced : ∀ expr value, related Unit (trace tracing ⟨depth, expr, value⟩)
      (trace otherTracing ⟨level, expr, value⟩))
    (room scope : Nat) (expr : Expr) :
    related Expr (Expr.evalForm tracing run room depth scope expr)
      (Expr.evalForm otherTracing otherRun room level scope expr) := by
  cases expr with
  | identifier name => exact congruence.lookup scope name
  | list items =>
    cases items with
    | nil => exact congruence.fail (by decide) _
    | cons head rest =>
      simp only [Expr.evalForm]
      refine congruence.next (inner scope head) fun function => ?_
      split
      · refine congruence.next (congruence.mapM fun item => inner scope item) fun args => ?_
        refine congruence.next (congruence.applyWith inner room scope function args) fun value => ?_
        exact congruence.next (traced _ value) fun _ => congruence.value value
      · exact congruence.fail (by decide) _
  | _ => exact congruence.value _

end Congruence

end Action

end Lisplet
