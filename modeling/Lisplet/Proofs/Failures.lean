import Lisplet.Proofs.Reporting
import Lisplet.Proofs.StackPrinting

/-!
How evaluation can fail.

A failed evaluation is an error of the language, which fits its message and its source, or it used up the
stack, or something could not be printed: an expression, or a step where steps are shown. The steps that an
evaluation records to be shown can all be shown.

* `Fault.Unprintable`: the faults of printing.
* `Fault.Ordinary`: the faults of evaluation.
* `Action.Orderly`: an action that fails in these ways only and records steps that are due.
* `Builtin.call_orderly`: the native functions.
* `Expr.eval_orderly`: evaluation.
-/

namespace Lisplet

/-- A breakdown that can be told. -/
def Fault.IsSayable (fault : Fault) : Prop :=
  ∃ breakdown message, fault = .breakdown breakdown ∧ breakdown.message = .ok message

theorem Expr.isSayable_of_printed {expr : Expr} {fault : Fault}
    (stuck : expr.printed = .error fault) : fault.IsSayable := by
  obtain ⟨number, _, rfl⟩ := exists_of_printed stuck
  exact ⟨_, _, rfl, rfl⟩

/-- A breakdown that can be told is told by an error that can be reported. -/
theorem Fault.IsSayable.told {fault : Fault} (sayable : fault.IsSayable) :
    ∃ error message, fault.told? = some error ∧ error.Sound ∧ error.message = .ok message := by
  obtain ⟨breakdown, message, rfl, said⟩ := sayable
  let text := "unknown error: '" ++ breakdown.label ++ ": " ++ message ++ "'"
  refine ⟨_, text ++ "", ?_, Error.sound_internal text, rfl⟩
  simp only [told?, said, Except.toOption, Option.map_some]
  rfl

variable [Host]

/-- The faults of printing: an expression cannot be printed, or a step that is to be shown cannot. -/
inductive Fault.Unprintable (tracing : Tracing) : Fault → Prop
  | expr {expr : Expr} {fault : Fault} (stuck : expr.printed = .error fault) :
      Unprintable tracing fault
  | step {step : Step} {fault : Fault} (shown : tracing = .shown)
      (stuck : step.line = .error fault) : Unprintable tracing fault

/-- The faults of evaluation. -/
inductive Fault.Ordinary (tracing : Tracing) : Fault → Prop
  | error {error : Error} (sound : error.Sound) : Ordinary tracing (.error error)
  | exhausted : Ordinary tracing .exhausted
  | unprintable {fault : Fault} (stuck : fault.Unprintable tracing) : Ordinary tracing fault

theorem isSayable_of_padding {room : Nat} {piece : String} {count : Int} {fault : Fault}
    (stuck : padding room piece count = .error fault) : fault.IsSayable := by
  dsimp only [padding] at stuck
  split at stuck
  · cases stuck
    exact ⟨_, _, rfl, rfl⟩
  · split at stuck
    · cases stuck
    · split at stuck
      · cases stuck
        exact ⟨_, _, rfl, rfl⟩
      · split at stuck <;> cases stuck <;> exact ⟨_, _, rfl, rfl⟩

theorem Step.isSayable_of_line {step : Step} {fault : Fault} (stuck : step.line = .error fault) :
    fault.IsSayable := by
  rw [line] at stuck
  cases indented : padding 0 "  " step.depth with
  | error first =>
    rw [indented] at stuck
    cases (stuck : Except.error first = Except.error fault)
    exact isSayable_of_padding indented
  | ok indent =>
    cases left : step.expr.printed with
    | error first =>
      rw [indented, left] at stuck
      cases (stuck : Except.error first = Except.error fault)
      exact Expr.isSayable_of_printed left
    | ok expr =>
      cases right : step.value.printed with
      | error first =>
        rw [indented, left, right] at stuck
        cases (stuck : Except.error first = Except.error fault)
        exact Expr.isSayable_of_printed right
      | ok value =>
        rw [indented, left, right] at stuck
        cases stuck

/-- Every fault of printing is a breakdown that can be told. -/
theorem Fault.Unprintable.isSayable {tracing : Tracing} {fault : Fault}
    (stuck : fault.Unprintable tracing) : fault.IsSayable := by
  cases stuck with
  | expr stuck => exact Expr.isSayable_of_printed stuck
  | step _ stuck => exact Step.isSayable_of_line stuck

/-- Every fault of evaluation is told by an error that fits its message and its source. -/
theorem Fault.Ordinary.told {tracing : Tracing} {fault : Fault} (ordinary : fault.Ordinary tracing) :
    ∃ error, fault.told? = some error ∧ error.Sound := by
  cases ordinary with
  | error sound => exact ⟨_, rfl, sound⟩
  | exhausted => exact ⟨_, rfl, Error.sound_of_filled rfl⟩
  | unprintable stuck =>
    obtain ⟨error, _, told, sound, _⟩ := stuck.isSayable.told
    exact ⟨error, told, sound⟩

/-- What must hold of a step that is recorded. -/
def Step.Due (tracing : Tracing) (step : Step) : Prop :=
  match tracing with
  | .off => False
  | .recorded => True
  | .shown => ∃ line, step.line = .ok line

/-! ### Orderly actions -/

namespace Action

variable {α β : Type} {tracing : Tracing}

/-- An action that records steps that are due, and whose faults are those of evaluation. -/
def Orderly (tracing : Tracing) (action : Action α) : Prop :=
  ∀ world : World, (∀ step ∈ world.steps, step.Due tracing) →
    (∀ step ∈ (action.run world).2.steps, step.Due tracing) ∧
      ∀ fault, (action.run world).1 = .error fault → fault.Ordinary tracing

/-- An action that records nothing is orderly if its faults are. -/
theorem orderly_of_steps_eq {action : Action α}
    (same : ∀ world, (action.run world).2.steps = world.steps)
    (faults : ∀ world fault, (action.run world).1 = .error fault → fault.Ordinary tracing) :
    Orderly tracing action := by
  intro world due
  rw [same world]
  exact ⟨due, faults world⟩

theorem orderly_pure (value : α) : Orderly tracing (pure value : Action α) :=
  orderly_of_steps_eq (fun _ => rfl) fun _ _ failed => nomatch failed

theorem orderly_throw {fault : Fault} (ordinary : fault.Ordinary tracing) :
    Orderly tracing (throw fault : Action α) := by
  refine orderly_of_steps_eq (fun _ => rfl) fun _ other failed => ?_
  cases failed
  exact ordinary

theorem orderly_fail {kind : ErrorKind} {args : List Arg}
    (filled : kind.template.count .slot = args.length) :
    Orderly tracing (fail kind args : Action α) :=
  orderly_throw (.error (Error.sound_of_filled filled))

/-- One orderly action after another. -/
theorem Orderly.bind {action : Action α} {next : α → Action β} (first : Orderly tracing action)
    (second : ∀ value, Orderly tracing (next value)) : Orderly tracing (action >>= next) := by
  intro world due
  obtain ⟨kept, faults⟩ := first world due
  rw [run_bind]
  rcases ran : action.run world with ⟨fault | value, after⟩ <;> rw [ran] at kept faults
  · refine ⟨kept, fun other failed => ?_⟩
    cases failed
    exact faults fault rfl
  · exact second value after kept

/-- Orderly actions for all items of a list. -/
theorem orderly_mapM {items : List α} {act : α → Action β}
    (each : ∀ item, Orderly tracing (act item)) : Orderly tracing (items.mapM act) := by
  induction items with
  | nil => exact orderly_pure []
  | cons first rest previous =>
    rw [List.mapM_cons]
    exact (each first).bind fun value => previous.bind fun values => orderly_pure _

theorem orderly_lookup (scope : Nat) (name : String) : Orderly tracing (lookup scope name) := by
  have read : Orderly tracing (get : Action World) :=
    orderly_of_steps_eq (fun _ => rfl) fun _ _ failed => nomatch failed
  unfold lookup
  refine read.bind fun world => ?_
  split
  · exact orderly_pure _
  · exact orderly_fail rfl

theorem orderly_bindName (scope : Nat) (name : String) (value : Expr) :
    Orderly tracing (bindName scope name value) :=
  orderly_of_steps_eq (fun _ => rfl) fun _ _ failed => nomatch failed

theorem orderly_createScope (bindings : List (String × Expr)) (parent : Nat) :
    Orderly tracing (createScope bindings parent) :=
  orderly_of_steps_eq (fun _ => rfl) fun _ _ failed => nomatch failed

/-- A step is recorded if it is due, and one that cannot be shown is a fault. -/
theorem orderly_record {step : Step} (fits : step.Due tracing) :
    Orderly tracing (record step) := by
  intro world due
  refine ⟨fun other member => ?_, fun _ failed => nomatch failed⟩
  obtain older | rfl := Array.mem_push.mp member
  · exact due other older
  · exact fits

theorem orderly_trace (tracing : Tracing) (step : Step) : Orderly tracing (trace tracing step) := by
  cases tracing with
  | off => exact orderly_pure ()
  | recorded => exact orderly_record trivial
  | shown =>
    simp only [trace]
    cases shown : step.line with
    | ok line => exact orderly_record ⟨line, shown⟩
    | error fault => exact orderly_throw (.unprintable (.step rfl shown))

end Action

/-! ### The native functions -/

open Lisplet.Action

variable {tracing : Tracing}

/-- A native function fails with an error, or because an argument cannot be printed. -/
theorem Builtin.call_orderly (builtin : Builtin) (room scope : Nat) (args : List Expr) :
    Orderly tracing (builtin.call room scope args) := by
  have rule := builtin.calls room scope args
  generalize builtin.call room scope args = action at rule
  cases rule with
  | wrongCount => exact orderly_fail rfl
  | wrongType => exact orderly_fail rfl
  | arithmetic => exact orderly_pure _
  | overflow => exact orderly_fail rfl
  | identity value => exact orderly_pure value
  | text content => exact orderly_pure _
  | unprintable _ stuck =>
    obtain rfl | unprinted := Expr.error_of_plain stuck
    · exact orderly_throw .exhausted
    · exact orderly_throw (.unprintable (.expr unprinted))
  | list args => exact orderly_pure _
  | define name value => exact (orderly_bindName scope name _).bind fun _ => orderly_pure _
  | flawedBody read =>
    exact orderly_throw (.error (Error.sound_toError (Cursor.start_le_of_readForm read)))
  | closure => exact orderly_pure _

/-! ### Evaluation -/

namespace Expr

theorem applyWith_orderly {run : Nat → Expr → Action Expr}
    (body_orderly : ∀ scope expr, Orderly tracing (run scope expr)) (room scope : Nat)
    (function : Expr) (args : List Expr) :
    Orderly tracing (applyWith run room scope function args) := by
  cases function with
  | native builtin => exact builtin.call_orderly room scope args
  | closure params body home name =>
    simp only [applyWith]
    split
    · exact orderly_fail rfl
    · exact (orderly_createScope _ home).bind fun inner => body_orderly inner body
  | _ => exact orderly_fail rfl

/-- One level of evaluation. -/
theorem evalForm_orderly {run : Nat → Expr → Action Expr}
    (inner : ∀ scope expr, Orderly tracing (run scope expr)) (room : Nat) (depth : Int) (scope : Nat)
    (expr : Expr) : Orderly tracing (evalForm tracing run room depth scope expr) := by
  cases expr with
  | identifier name => exact orderly_lookup scope name
  | list items =>
    cases items with
    | nil => exact orderly_fail rfl
    | cons head rest =>
      rw [evalForm]
      refine (inner scope head).bind fun function => ?_
      split
      · refine (orderly_mapM fun item => inner scope item).bind fun args => ?_
        refine (applyWith_orderly inner room scope function args).bind fun value => ?_
        exact (orderly_trace _ _).bind fun _ => orderly_pure value
      · exact orderly_fail rfl
  | _ => exact orderly_pure _

/-- By induction on the levels that are left. -/
theorem evalWithin_orderly (settings : Settings) (room : Nat) (depth : Int) (scope : Nat)
    (expr : Expr) : Orderly settings.tracing (evalWithin settings room depth scope expr) := by
  induction room generalizing depth scope expr with
  | zero => exact orderly_throw .exhausted
  | succ room deeper =>
    rw [evalWithin]
    split
    · exact orderly_fail rfl
    · exact evalForm_orderly (deeper (depth + 1)) room depth scope expr

/-- An evaluation that starts without steps records only steps that are due, and fails only with an
error of the language, because the stack is used up, or because something cannot be printed. -/
theorem eval_orderly (settings : Settings) (depth : Int) (scope : Nat) (expr : Expr)
    (store : Store) :
    let outcome := (expr.eval settings depth scope).run { store }
    (∀ step ∈ outcome.2.steps, step.Due settings.tracing) ∧
      ∀ fault, outcome.1 = .error fault → fault.Ordinary settings.tracing :=
  evalWithin_orderly settings _ depth scope expr { store } (by simp)

end Expr

end Lisplet
