import Lisplet.Proofs.Congruence
import Lisplet.Terminal

/-!
What the limit of an evaluation decides.

An evaluation compares its limit with depths and does nothing else with it. Moving depth and limit by the
same amount moves the recorded steps along and changes nothing else, and a higher limit changes an
evaluation only if it ended for want of depth. All of this is so whatever the stack has room for.

* `Action.Mirrors`: two actions that do the same at depths that differ by a fixed amount.
* `Expr.evalWithin_mirrors`: the same distance from the limit, at another depth.
* `Action.Extends`: an action that agrees with another one unless that one ran out of depth.
* `Expr.evalWithin_extends`: a higher limit.
* `Expr.eval_sees_only_headroom`: both, for evaluations with the whole stack.
-/

namespace Lisplet

/-! ### The same at another depth -/

/-- The same step further down. -/
def Step.deepen (count : Nat) (step : Step) : Step :=
  { step with depth := step.depth + count }

/-- The same world with its steps further down. -/
def World.deepen (count : Nat) (world : World) : World :=
  { world with steps := world.steps.map (Step.deepen count) }

theorem World.deepen_stepless (count : Nat) (store : Store) :
    World.deepen count { store } = { store } :=
  congrArg (World.mk store) (Array.map_empty ..)

/-- The same fault below another limit, which only the error of an evaluation that is too deep
states. -/
def Fault.below (limit : Int) : Fault → Fault
  | .error found =>
    if found.kind = .evaluationTooDeep then .error { found with args := [.number limit] }
    else .error found
  | other => other

theorem Fault.NotTooDeep.below_eq {fault : Fault} (notTooDeep : fault.NotTooDeep) (limit : Int) :
    fault.below limit = fault := by
  unfold Fault.below
  cases fault with
  | error error => exact if_neg (notTooDeep error rfl)
  | _ => rfl

namespace Action

variable {α β : Type} {count : Nat} {limit : Int}

/-- The second action does `count` levels further down, and below `limit`, what the first one does.
-/
def Mirrors (count : Nat) (limit : Int) (action deeper : Action α) : Prop :=
  ∀ world, deeper.run (world.deepen count) =
    ((action.run world).1.mapError (Fault.below limit), (action.run world).2.deepen count)

theorem mirrors_pure (value : α) : Mirrors count limit (pure value) (pure value) :=
  fun _ => rfl

theorem mirrors_throw {fault : Fault} (notTooDeep : fault.NotTooDeep) :
    Mirrors count limit (throw fault : Action α) (throw fault) := by
  intro world
  show (Except.error fault, world.deepen count) =
    (Except.error (fault.below limit), world.deepen count)
  rw [notTooDeep.below_eq]

theorem mirrors_fail {kind : ErrorKind} (other : kind ≠ .evaluationTooDeep) (args : List Arg) :
    Mirrors count limit (fail kind args : Action α) (fail kind args) :=
  mirrors_throw (Fault.notTooDeep_error other)

theorem Mirrors.bind {action deeper : Action α} {next deeperNext : α → Action β}
    (first : Mirrors count limit action deeper)
    (second : ∀ value, Mirrors count limit (next value) (deeperNext value)) :
    Mirrors count limit (action >>= next) (deeper >>= deeperNext) := by
  intro world
  rw [run_bind, run_bind, first world]
  rcases action.run world with ⟨fault | value, after⟩
  · rfl
  · exact second value after

theorem mirrors_lookup (scope : Nat) (name : String) :
    Mirrors count limit (lookup scope name) (lookup scope name) := by
  intro world
  have same : (world.deepen count).store.lookup? scope name = world.store.lookup? scope name := rfl
  rw [run_lookup, run_lookup, same]
  cases world.store.lookup? scope name with
  | some value => exact mirrors_pure value world
  | none => exact mirrors_fail (by decide) _ world

theorem mirrors_bindName (scope : Nat) (name : String) (value : Expr) :
    Mirrors count limit (bindName scope name value) (bindName scope name value) :=
  fun _ => rfl

theorem mirrors_createScope (bindings : List (String × Expr)) (parent : Nat) :
    Mirrors count limit (createScope bindings parent) (createScope bindings parent) :=
  fun _ => rfl

/-- Doing the same at another depth is kept by evaluation. -/
theorem mirrors_congruence (count : Nat) (limit : Int) :
    Congruence fun α => @Mirrors α count limit where
  value := mirrors_pure
  fault := mirrors_throw
  next := Mirrors.bind
  lookup := mirrors_lookup
  bindName := mirrors_bindName
  createScope := mirrors_createScope

theorem mirrors_record (step : Step) :
    Mirrors count limit (record step) (record (step.deepen count)) := by
  intro world
  show ((.ok (), ⟨world.store, (world.deepen count).steps.push (step.deepen count)⟩) :
    Except Fault Unit × World) = (.ok (), ⟨world.store, (world.steps.push step).map _⟩)
  rw [Array.map_push]
  rfl

end Action

/-! ### Steps that are shown -/

section Depths

variable [Host]

/-- A line can be indented by a depth. -/
def Indentable (depth : Int) : Prop :=
  -indexBound ≤ depth ∧ 2 * depth ≤ Host.textCapacity

theorem padding_of_indentable {depth : Int} (indentable : Indentable depth) :
    ∃ text, padding 0 "  " depth = .ok text := by
  obtain ⟨lower, upper⟩ := indentable
  have short : depth.toNat * "  ".length ≤ Host.textCapacity := by
    show depth.toNat * 2 ≤ Host.textCapacity
    omega
  unfold padding
  rw [if_neg (by omega), if_pos (by simp [short])]
  exact ⟨_, rfl⟩

/-- Whether a step can be shown depends on its expressions alone, as long as its depth can be
indented. -/
theorem Step.line_deepen {step : Step} {count : Nat} (here : Indentable step.depth)
    (there : Indentable (step.depth + count)) :
    (∃ line deeperLine, step.line = .ok line ∧ (step.deepen count).line = .ok deeperLine) ∨
      ∃ breakdown, step.line = .error (.breakdown breakdown) ∧
        (step.deepen count).line = .error (.breakdown breakdown) := by
  obtain ⟨indent, padded⟩ := padding_of_indentable here
  obtain ⟨deeperIndent, deeperPadded⟩ := padding_of_indentable there
  have line : step.line = do
      let expr ← step.expr.printed
      let value ← step.value.printed
      return indent ++ expr ++ " => " ++ value := by
    unfold Step.line
    rw [padded]
    rfl
  have deeperLine : (step.deepen count).line = do
      let expr ← step.expr.printed
      let value ← step.value.printed
      return deeperIndent ++ expr ++ " => " ++ value := by
    unfold Step.line Step.deepen
    rw [deeperPadded]
    rfl
  rw [line, deeperLine]
  unfold Expr.printed
  cases step.expr.print with
  | error number => exact .inr ⟨_, rfl, rfl⟩
  | ok expr =>
    cases step.value.print with
    | error number => exact .inr ⟨_, rfl, rfl⟩
    | ok value => exact .inl ⟨_, _, rfl, rfl⟩

theorem Action.mirrors_trace {count : Nat} {limit : Int} (tracing : Tracing) (step : Step)
    (indentable : tracing = .shown → Indentable step.depth ∧ Indentable (step.depth + count)) :
    Mirrors count limit (trace tracing step) (trace tracing (step.deepen count)) := by
  cases tracing with
  | off => exact mirrors_pure ()
  | recorded => exact mirrors_record step
  | shown =>
    obtain ⟨here, there⟩ := indentable rfl
    unfold trace
    rcases Step.line_deepen here there with
      ⟨line, deeperLine, shown, deeperShown⟩ | ⟨breakdown, stuck, deeperStuck⟩
    · simp only [shown, deeperShown]
      exact mirrors_record step
    · simp only [stuck, deeperStuck]
      exact mirrors_throw (Fault.notTooDeep_breakdown breakdown)

/-! ### Evaluation at another depth -/

namespace Expr

open Lisplet.Action

/-- An evaluation at a depth that is greater by `count`, and below a limit that is. The induction is on
the levels of the stack that are left. A step that is shown is at one of the depths up to the limit. -/
theorem evalWithin_mirrors (settings : Settings) (count room : Nat) (depth : Int) (scope : Nat)
    (expr : Expr)
    (indentable : settings.tracing = .shown → ∀ level, depth ≤ level → level ≤ settings.limit →
      Indentable level ∧ Indentable (level + count)) :
    Mirrors count (settings.limit + count) (evalWithin settings room depth scope expr)
      (evalWithin { settings with limit := settings.limit + count } room (depth + count) scope
        expr) := by
  induction room generalizing depth scope expr with
  | zero => exact mirrors_throw Fault.notTooDeep_exhausted
  | succ room deeper =>
    by_cases below : depth ≤ settings.limit
    · rw [evalWithin_below below, evalWithin_below (by dsimp only; omega)]
      refine (mirrors_congruence count _).evalForm (fun inner form => ?_) (fun list value => ?_)
        room scope expr
      · rw [Int.add_right_comm]
        refine deeper (depth + 1) inner form fun shown level lower upper => ?_
        exact indentable shown level (by omega) upper
      · refine mirrors_trace settings.tracing ⟨depth, list, value⟩ fun shown => ?_
        exact indentable shown depth (Int.le_refl depth) below
    · rw [evalWithin_beyond (Int.not_le.mp below), evalWithin_beyond (by dsimp only; omega)]
      exact fun _ => rfl

end Expr

end Depths

/-! ### A higher limit -/

namespace Action

variable {α β : Type}

/-- The second action agrees with the first one, unless the first one ran out of depth. -/
def Extends (action longer : Action α) : Prop :=
  ∀ world, (∀ fault, (action.run world).1 = .error fault → fault.NotTooDeep) →
    longer.run world = action.run world

theorem Extends.refl (action : Action α) : Extends action action :=
  fun _ _ => rfl

theorem Extends.bind {action longer : Action α} {next longerNext : α → Action β}
    (first : Extends action longer) (second : ∀ value, Extends (next value) (longerNext value)) :
    Extends (action >>= next) (longer >>= longerNext) := by
  intro world notTooDeep
  rw [run_bind] at notTooDeep
  rw [run_bind, run_bind]
  rcases ran : action.run world with ⟨fault | value, after⟩ <;> rw [ran] at notTooDeep
  · have same : longer.run world = action.run world := by
      refine first world fun found stopped => ?_
      rw [ran] at stopped
      cases stopped
      exact notTooDeep fault rfl
    rw [same, ran]
  · have same : longer.run world = action.run world := by
      refine first world fun found stopped => ?_
      rw [ran] at stopped
      cases stopped
    rw [same, ran]
    exact second value after notTooDeep

/-- Agreeing as long as there is enough depth is kept by evaluation. -/
theorem extends_congruence : Congruence @Extends where
  value _ := .refl _
  fault _ := .refl _
  next := Extends.bind
  lookup _ _ := .refl _
  bindName _ _ _ := .refl _
  createScope _ _ := .refl _

end Action

namespace Expr

open Lisplet.Action

section Limits

variable [Host]

/-- An evaluation below a higher limit. By induction on the levels of the stack that are left. -/
theorem evalWithin_extends (settings : Settings) {limit : Int} (higher : settings.limit ≤ limit)
    (room : Nat) (depth : Int) (scope : Nat) (expr : Expr) :
    Extends (evalWithin settings room depth scope expr)
      (evalWithin { settings with limit := limit } room depth scope expr) := by
  induction room generalizing depth scope expr with
  | zero => exact .refl _
  | succ room deeper =>
    by_cases below : depth ≤ settings.limit
    · rw [evalWithin_below below, evalWithin_below (Int.le_trans below higher)]
      refine extends_congruence.evalForm (fun inner form => ?_) (fun list value => ?_) room scope expr
      · exact deeper (depth + 1) inner form
      · exact .refl (trace settings.tracing ⟨depth, list, value⟩)
    · intro world notTooDeep
      rw [evalWithin_beyond (Int.not_le.mp below)] at notTooDeep
      exact absurd rfl (notTooDeep _ rfl _ rfl)

/-- **Evaluation sees its limit only as headroom.** If depth and limit are greater by the same
count, the evaluation has the same value, the same error but for the limit that an evaluation too
deep states, and the same scopes, and its steps are that much deeper; steps that are shown must be
at depths that can be indented. If an evaluation does not fail for want of depth, it is the same
below every higher limit. -/
theorem eval_sees_only_headroom (settings : Settings) (depth : Int) (scope : Nat) (expr : Expr)
    (store : Store) :
    (∀ count : Nat,
      (settings.tracing = .shown → ∀ level, depth ≤ level → level ≤ settings.limit →
        Indentable level ∧ Indentable (level + count)) →
      let here := (expr.eval settings depth scope).run { store }
      let there := (expr.eval { settings with limit := settings.limit + count } (depth + count)
        scope).run { store }
      there.1 = here.1.mapError (Fault.below (settings.limit + count)) ∧
        there.2.store = here.2.store ∧ there.2.steps = here.2.steps.map (Step.deepen count)) ∧
    ∀ limit, settings.limit ≤ limit →
      (∀ fault, ((expr.eval settings depth scope).run { store }).1 = .error fault →
        fault.NotTooDeep) →
      (expr.eval { settings with limit := limit } depth scope).run { store } =
        (expr.eval settings depth scope).run { store } := by
  refine ⟨fun count indentable => ?_, fun limit higher notTooDeep => ?_⟩
  · have mirrored := evalWithin_mirrors settings count Host.stackLevels depth scope expr indentable
      { store }
    rw [World.deepen_stepless] at mirrored
    unfold eval
    rw [mirrored]
    exact ⟨rfl, rfl, rfl⟩
  · exact evalWithin_extends settings higher Host.stackLevels depth scope expr { store } notTooDeep

end Limits

/-- A sum in a sum that is shown, with the least limit that it needs: five levels further down, and
below a higher limit. -/
theorem eval_sees_only_headroom_sum :
    let sum : Expr := .list [.native .add, .integer 1, .list [.native .add, .integer 2, .integer 3]]
    let here := (sum.eval { limit := 2, tracing := .shown } 0 0).run { store := {} }
    let deeper := (sum.eval { limit := 2 + 5, tracing := .shown } (0 + 5) 0).run { store := {} }
    here.1 = .ok (.integer 6) ∧ here.2.steps.size = 2 ∧
      deeper.1 = here.1.mapError (Fault.below (2 + 5)) ∧
      deeper.2.steps = here.2.steps.map (Step.deepen 5) ∧
      (sum.eval { limit := 9, tracing := .shown } 0 0).run { store := {} } = here := by
  intro sum here deeper
  have value : here.1 = .ok (.integer 6) := by rfl
  obtain ⟨shifted, extended⟩ :=
    eval_sees_only_headroom { limit := 2, tracing := .shown } 0 0 sum {}
  obtain ⟨outcome, -, steps⟩ := shifted 5 fun _ level lower upper => by
    unfold Indentable indexBound
    have capacity : Host.textCapacity = 68719476736 := rfl
    rw [capacity]
    dsimp only at upper
    omega
  refine ⟨value, by rfl, outcome, steps, extended 9 (by decide) fun fault stopped => ?_⟩
  rw [value] at stopped
  cases stopped

end Expr

end Lisplet
