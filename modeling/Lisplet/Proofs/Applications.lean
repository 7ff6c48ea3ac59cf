import Lisplet.Proofs.Values

/-!
The applications that an evaluation comes to.

Evaluating a list evaluates its head and its other items, applies a function, and, if that is a closure,
evaluates its body. An evaluation comes to an application if one of these parts does, or if the application
is its own. An application that fails ends the whole evaluation, and without tracing an evaluation fails
in no other way than with an error of evaluation that has no place in a text, unless the stack has fewer
levels than the limit admits.

* `Expr.Application`: a function, its evaluated arguments, the calling scope, the levels of the stack that
  are left, and the world of that moment.
* `Expr.Applies`: the applications that an evaluation comes to.
* `Expr.Applies.failed`: a native function that fails ends the evaluation.
* `Expr.ComesTo`: the same for an evaluation at a depth.
* `Expr.NativeFails`: an evaluation comes to a native function that fails.
* `Expr.evalWithin_failed`, `Expr.eval_failed`: how an evaluation fails.
* `Expr.Applies.sound`: the evaluation of a form applies values to values, in a sound store.
-/

namespace Lisplet

namespace Action

variable {α β : Type} {items : List α} {act : α → Action β} {world after : World} {fault : Fault}

/-- Acting on one item after the other fails at the first item where it does. -/
theorem run_mapM_error_iff :
    (items.mapM act).run world = (.error fault, after) ↔
      ∃ front item back values middle, items = front ++ item :: back ∧
        (front.mapM act).run world = (.ok values, middle) ∧
          (act item).run middle = (.error fault, after) := by
  constructor
  · intro failed
    induction items generalizing world with
    | nil => exact nomatch failed
    | cons item rest previous =>
      rw [List.mapM_cons, run_bind] at failed
      rcases acted : (act item).run world with ⟨stopped | value, second⟩ <;> rw [acted] at failed
      · cases failed
        exact ⟨[], item, rest, [], world, rfl, rfl, acted⟩
      · simp only [run_bind] at failed
        rcases remaining : (rest.mapM act).run second with ⟨stopped | values, third⟩ <;>
          rw [remaining] at failed
        · cases failed
          obtain ⟨front, last, back, values, middle, rfl, done, stopped⟩ := previous remaining
          refine ⟨item :: front, last, back, value :: values, middle, rfl, ?_, stopped⟩
          rw [List.mapM_cons, run_bind, acted]
          simp only [run_bind, done]
          rfl
        · exact nomatch failed
  · rintro ⟨front, item, back, values, middle, rfl, done, stopped⟩
    rw [List.mapM_append, run_bind, done]
    simp only [List.mapM_cons, run_bind, stopped]

/-- Tracing fails only if the step is to be shown and cannot be. -/
theorem run_trace_error [Host] {tracing : Tracing} {step : Step}
    (failed : (trace tracing step).run world = (.error fault, after)) :
    tracing = .shown ∧ step.line = .error fault := by
  cases tracing with
  | off => exact nomatch failed
  | recorded => exact nomatch failed
  | shown =>
    rw [trace] at failed
    cases line : step.line with
    | error stuck =>
      simp only [line] at failed
      cases failed
      exact ⟨rfl, rfl⟩
    | ok text =>
      simp only [line] at failed
      cases failed

end Action

/-- The world in which the body of a closure is evaluated. The scope of the call has the number that was
the size of the store. -/
def World.entered (world : World) (params : List String) (args : List Expr) (home : Nat) : World :=
  { world with store := world.store.create (params.zip args) (some home) }

/-- An error of evaluation that has no place in a text. -/
def Fault.IsPlain (fault : Fault) : Prop :=
  ∃ kind args, fault = .error { kind, args } ∧
    (ErrorKind.evaluation ∈ kind.ancestors ∨ ErrorKind.scope ∈ kind.ancestors)

namespace Expr

open Lisplet.Action

/-! ### Applications -/

/-- A function applied to evaluated arguments in a scope, with so many levels of the stack left. -/
structure Application where
  room : Nat
  scope : Nat
  function : Expr
  args : List Expr
  world : World

variable [Host] {settings : Settings} {room : Nat} {depth : Int} {scope : Nat} {world after : World}
  {fault : Fault}

/-- The head of a list and some of its other items have been evaluated. -/
inductive Prepared (settings : Settings) (room : Nat) (depth : Int) (scope : Nat) (head : Expr)
    (items : List Expr) (world : World) (function : Expr) (args : List Expr) (after : World) : Prop
  | intro {middle : World}
      (headed : (evalWithin settings room (depth + 1) scope head).run world = (.ok function, middle))
      (callable : function.isFunction = true)
      (evaluated : (items.mapM (evalWithin settings room (depth + 1) scope)).run middle =
        (.ok args, after))

/-- The applications that an evaluation comes to. -/
inductive Applies (settings : Settings) : Nat → Int → Nat → Expr → World → Application → Prop
  | head {room : Nat} {depth : Int} {scope : Nat} {head : Expr} {rest : List Expr} {world : World}
      {application : Application}
      (inner : Applies settings room (depth + 1) scope head world application) :
      Applies settings (room + 1) depth scope (.list (head :: rest)) world application
  | item {room : Nat} {depth : Int} {scope : Nat} {head item : Expr} {front back : List Expr}
      {world middle : World} {function : Expr} {values : List Expr} {application : Application}
      (ready : Prepared settings room depth scope head front world function values middle)
      (inner : Applies settings room (depth + 1) scope item middle application) :
      Applies settings (room + 1) depth scope (.list (head :: (front ++ item :: back))) world
        application
  | call {room : Nat} {depth : Int} {scope : Nat} {head : Expr} {rest : List Expr}
      {world middle : World} {function : Expr} {args : List Expr}
      (ready : Prepared settings room depth scope head rest world function args middle) :
      Applies settings (room + 1) depth scope (.list (head :: rest)) world
        ⟨room, scope, function, args, middle⟩
  | body {room : Nat} {depth : Int} {scope : Nat} {head : Expr} {rest : List Expr}
      {world middle : World} {params : List String} {body : Expr} {home : Nat} {name : String}
      {args : List Expr} {application : Application}
      (ready : Prepared settings room depth scope head rest world (.closure params body home name)
        args middle)
      (matching : args.length = params.length)
      (inner : Applies settings room (depth + 1) middle.store.size body
        (middle.entered params args home) application) :
      Applies settings (room + 1) depth scope (.list (head :: rest)) world application

/-- Only below the limit is there a value. -/
theorem below_of_evaluated {expr value : Expr}
    (evaluated : (evalWithin settings room depth scope expr).run world = (.ok value, after)) :
    depth ≤ settings.limit := by
  by_contra beyond
  cases room with
  | zero => exact nomatch evaluated
  | succ room =>
    rw [evalWithin_beyond (Int.not_le.mp beyond)] at evaluated
    exact nomatch evaluated

theorem Prepared.admitted {head function : Expr} {items args : List Expr}
    (ready : Prepared settings room depth scope head items world function args after) :
    depth < settings.limit := by
  obtain ⟨headed, _, _⟩ := ready
  exact Int.lt_of_add_one_le (below_of_evaluated headed)

/-- An evaluation that comes to an application is below the limit. -/
theorem Applies.admitted {expr : Expr} {application : Application}
    (applies : Applies settings room depth scope expr world application) :
    depth < settings.limit := by
  induction applies with
  | head _ previous => omega
  | item ready | call ready | body ready => exact ready.admitted

/-! ### Failures -/

omit [Host] in
theorem run_applyWith_closure {run : Nat → Expr → Action Expr} {params : List String} {body : Expr}
    {home : Nat} {name : String} {args : List Expr} (matching : args.length = params.length) :
    (applyWith run room scope (.closure params body home name) args).run world =
      (run world.store.size body).run (world.entered params args home) := by
  rw [applyWith, if_neg (not_not.mpr matching)]
  rfl

/-- What is left of the evaluation of a list when its items have been evaluated. -/
theorem Prepared.run_eq {head : Expr} {rest args : List Expr} {function : Expr}
    (ready : Prepared settings room depth scope head rest world function args after) :
    (evalWithin settings (room + 1) depth scope (.list (head :: rest))).run world =
      ((applyWith (evalWithin settings room (depth + 1)) room scope function args >>= fun value =>
        trace settings.tracing ⟨depth, .list (head :: rest), value⟩ >>= fun _ =>
          pure value) : Action Expr).run after := by
  rw [evalWithin_below (Int.le_of_lt ready.admitted), evalForm]
  obtain ⟨headed, callable, evaluated⟩ := ready
  rw [run_bind, headed]
  simp only [callable, if_true]
  rw [run_bind, evaluated]

/-- An application that fails ends the evaluation of its list. -/
theorem Prepared.failed {head : Expr} {rest args : List Expr} {function : Expr} {middle : World}
    (ready : Prepared settings room depth scope head rest world function args middle)
    (stopped : (applyWith (evalWithin settings room (depth + 1)) room scope function args).run middle =
      (.error fault, after)) :
    (evalWithin settings (room + 1) depth scope (.list (head :: rest))).run world =
      (.error fault, after) := by
  rw [ready.run_eq, run_bind, stopped]

/-- A head that fails ends the evaluation of its list. -/
theorem evalWithin_failed_of_head {head : Expr} (below : depth ≤ settings.limit)
    (stopped : (evalWithin settings room (depth + 1) scope head).run world = (.error fault, after))
    (rest : List Expr) :
    (evalWithin settings (room + 1) depth scope (.list (head :: rest))).run world =
      (.error fault, after) := by
  rw [evalWithin_below below, evalForm, run_bind, stopped]

/-- Another item that fails ends the evaluation of its list. -/
theorem Prepared.failed_of_item {head item : Expr} {front values : List Expr} {function : Expr}
    {middle : World}
    (ready : Prepared settings room depth scope head front world function values middle)
    (stopped : (evalWithin settings room (depth + 1) scope item).run middle = (.error fault, after))
    (back : List Expr) :
    (evalWithin settings (room + 1) depth scope (.list (head :: (front ++ item :: back)))).run world =
      (.error fault, after) := by
  rw [evalWithin_below (Int.le_of_lt ready.admitted), evalForm]
  obtain ⟨headed, callable, evaluated⟩ := ready
  have failed : ((front ++ item :: back).mapM (evalWithin settings room (depth + 1) scope)).run _ =
      (.error fault, after) :=
    run_mapM_error_iff.mpr ⟨front, item, back, values, middle, rfl, evaluated, stopped⟩
  rw [run_bind, headed]
  simp only [callable, if_true]
  rw [run_bind, failed]

/-- **A native function that fails ends the evaluation that comes to it**, with the same fault and in the
same world. -/
theorem Applies.failed {expr : Expr} {application : Application} {builtin : Builtin}
    (applies : Applies settings room depth scope expr world application)
    (native : application.function = .native builtin)
    (stopped : (builtin.call application.room application.scope application.args).run
      application.world = (.error fault, after)) :
    (evalWithin settings room depth scope expr).run world = (.error fault, after) := by
  induction applies with
  | head inner previous =>
    have below := inner.admitted
    exact evalWithin_failed_of_head (by omega) (previous native stopped) _
  | item ready _ previous => exact ready.failed_of_item (previous native stopped) _
  | call ready =>
    simp only at native
    subst native
    exact ready.failed stopped
  | body ready matching _ previous =>
    refine ready.failed ?_
    rw [run_applyWith_closure matching]
    exact previous native stopped

/-- How the evaluation of a list can fail. The last way needs tracing that shows the steps. -/
inductive ListFails (settings : Settings) (room : Nat) (depth : Int) (scope : Nat) (head : Expr)
    (rest : List Expr) (world : World) (fault : Fault) (after : World) : Prop
  | head
      (stopped : (evalWithin settings room (depth + 1) scope head).run world = (.error fault, after))
  | notAFunction {function : Expr}
      (said : fault = .error { kind := .notAFunction, args := [.expr function] })
  | item {front back : List Expr} {item function : Expr} {values : List Expr} {middle : World}
      (split : rest = front ++ item :: back)
      (ready : Prepared settings room depth scope head front world function values middle)
      (stopped : (evalWithin settings room (depth + 1) scope item).run middle = (.error fault, after))
  | call {function : Expr} {args : List Expr} {middle : World}
      (ready : Prepared settings room depth scope head rest world function args middle)
      (stopped : (applyWith (evalWithin settings room (depth + 1)) room scope function args).run
        middle = (.error fault, after))
  | unshown {step : Step} (shown : settings.tracing = .shown) (stuck : step.line = .error fault)

theorem listFails_of_failed {head : Expr} {rest : List Expr} (below : depth ≤ settings.limit)
    (failed : (evalWithin settings (room + 1) depth scope (.list (head :: rest))).run world =
      (.error fault, after)) : ListFails settings room depth scope head rest world fault after := by
  rw [evalWithin_below below, evalForm, run_bind] at failed
  rcases headed : (evalWithin settings room (depth + 1) scope head).run world with
    ⟨stopped | function, second⟩ <;> rw [headed] at failed
  · cases failed
    exact .head headed
  by_cases callable : function.isFunction = true
  · simp only [callable, if_true, run_bind] at failed
    rcases evaluated : (rest.mapM (evalWithin settings room (depth + 1) scope)).run second with
      ⟨stopped | args, third⟩ <;> rw [evaluated] at failed
    · cases failed
      obtain ⟨front, item, back, values, middle, split, done, stopped⟩ :=
        run_mapM_error_iff.mp evaluated
      exact .item split ⟨headed, callable, done⟩ stopped
    · rcases applied : (applyWith (evalWithin settings room (depth + 1)) room scope function args).run
        third with ⟨stopped | value, fourth⟩ <;> simp only [applied] at failed
      · cases failed
        exact .call ⟨headed, callable, evaluated⟩ applied
      · rcases traced : (trace settings.tracing ⟨depth, .list (head :: rest), value⟩).run fourth with
          ⟨stopped | _, fifth⟩ <;> rw [traced] at failed <;> cases failed
        obtain ⟨shown, stuck⟩ := run_trace_error traced
        exact .unshown shown stuck
  · simp only [callable] at failed
    cases failed
    exact .notAFunction rfl

/-- An evaluation comes to a native function that fails, which leaves a world behind. -/
def NativeFails (settings : Settings) (room : Nat) (depth : Int) (scope : Nat) (expr : Expr)
    (world : World) (fault : Fault) (after : World) : Prop :=
  ∃ application builtin, Applies settings room depth scope expr world application ∧
    application.function = .native builtin ∧
      (builtin.call application.room application.scope application.args).run application.world =
        (.error fault, after)

theorem NativeFails.outside {inner outer : Nat} {within around : Int} {home : Nat} {part expr : Expr}
    {entered : World} (fails : NativeFails settings inner within home part entered fault after)
    (comes : ∀ application, Applies settings inner within home part entered application →
      Applies settings outer around scope expr world application) :
    NativeFails settings outer around scope expr world fault after := by
  obtain ⟨application, builtin, applies, stops⟩ := fails
  exact ⟨application, builtin, comes application applies, stops⟩

/-- An evaluation that is below the limit, or right behind it, runs out of levels. -/
def UsesUp (settings : Settings) (room : Nat) (depth : Int) (fault : Fault) : Prop :=
  fault = .exhausted ∧ depth + room ≤ settings.limit + 1

omit [Host] in
theorem UsesUp.outside (usesUp : UsesUp settings room (depth + 1) fault) :
    UsesUp settings (room + 1) depth fault := by
  obtain ⟨exhausted, enough⟩ := usesUp
  refine ⟨exhausted, ?_⟩
  push_cast
  omega

/-- The applications that the evaluation of an expression at a depth comes to. -/
def ComesTo (settings : Settings) (depth : Int) (scope : Nat) (expr : Expr) (world : World)
    (application : Application) : Prop :=
  Applies settings Host.stackLevels depth scope expr world application

/-- The head and the items of a form are evaluated to values of a sound store. -/
theorem Prepared.sound {head : Expr} {items args : List Expr} {function : Expr}
    (ready : Prepared settings room depth scope head items world function args after)
    (sound : world.store.Sound) (inside : scope < world.store.size) (headForm : head.IsForm)
    (forms : ∀ item ∈ items, item.IsForm) :
    after.store.Sound ∧ world.store.size ≤ after.store.size ∧ function.IsValue after.store.size ∧
      ∀ arg ∈ args, arg.IsValue after.store.size := by
  obtain ⟨headed, callable, evaluated⟩ := ready
  rename_i middle
  obtain ⟨grown, kept, value⟩ := evalWithin_keeps settings room (depth + 1) inside headForm world
    (Nat.le_refl _) sound
  rw [headed] at grown kept value
  have each : ∀ later, middle.store.size ≤ later → ∀ item ∈ items,
      KeepsValue later (evalWithin settings room (depth + 1) scope item) := by
    intro later more item member
    exact evalWithin_keeps settings room (depth + 1)
      (Nat.lt_of_lt_of_le inside (Nat.le_trans grown more)) (forms item member)
  obtain ⟨grownThen, keptThen, values⟩ := keeps_mapM each middle (Nat.le_refl _) kept
  rw [evaluated] at grownThen keptThen values
  exact ⟨keptThen, Nat.le_trans grown grownThen, (value function rfl).mono grownThen, values args rfl⟩

/-- An application of values to values, in a scope of a sound store. -/
structure Application.Sound (application : Application) : Prop where
  store : application.world.store.Sound
  inside : application.scope < application.world.store.size
  function : application.function.IsValue application.world.store.size
  args : ∀ arg ∈ application.args, arg.IsValue application.world.store.size

/-- **The evaluation of a form in a sound store comes to applications of values to values only.** -/
theorem Applies.sound {expr : Expr} {application : Application}
    (applies : Applies settings room depth scope expr world application)
    (sound : world.store.Sound) (inside : scope < world.store.size) (form : expr.IsForm) :
    application.Sound := by
  induction applies with
  | head _ previous =>
    rw [IsForm, allLeaves_list_iff] at form
    exact previous sound inside (form _ List.mem_cons_self)
  | item ready _ previous =>
    rw [IsForm, allLeaves_list_iff, List.forall_mem_cons, List.forall_mem_append,
      List.forall_mem_cons] at form
    obtain ⟨headForm, frontForms, itemForm, _⟩ := form
    obtain ⟨kept, grown, _⟩ := ready.sound sound inside headForm frontForms
    exact previous kept (Nat.lt_of_lt_of_le inside grown) itemForm
  | call ready =>
    rw [IsForm, allLeaves_list_iff, List.forall_mem_cons] at form
    obtain ⟨kept, grown, value, values⟩ := ready.sound sound inside form.1 form.2
    exact ⟨kept, Nat.lt_of_lt_of_le inside grown, value, values⟩
  | body ready _ _ previous =>
    rw [IsForm, allLeaves_list_iff, List.forall_mem_cons] at form
    obtain ⟨kept, _, value, values⟩ := ready.sound sound inside form.1 form.2
    -- The body was read as a form, and the scope of the call is the newest one.
    have formed : ClosureFormed _ _ _ _ := value.leaf rfl
    refine previous (kept.create (fun above same => ?_) fun binding member => ?_) ?_ formed.form
    · cases same
      exact formed.captured
    · exact values _ (List.of_mem_zip member).2
    · simp [World.entered]

end Expr

end Lisplet
