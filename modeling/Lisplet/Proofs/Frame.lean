import Lisplet.Eval.Evaluate
import Lisplet.Proofs.Natives

/-!
What evaluation leaves alone.

An evaluation in a scope writes to that scope and to scopes that it creates itself, and to no other.
This holds for every store, every expression and every way in which the evaluation can end.

* `Store.KeepsOutside`: what two stores have in common if only one old scope was written to.
* `Action.Confined`: an action after which the store is kept outside one scope, also if it fails.
* `Builtin.call_confined`: a native function is confined to the scope it is called in.
* `Expr.evalWithin_confined`: an evaluation is confined to its scope.
* `Expr.eval_and_apply_frame`: the frame of an evaluation, and that of a call of a closure, which is
  empty: the call writes to its own new scope only.
-/

namespace Lisplet

namespace Store

/-- A name is bound in one scope alone. -/
def Binds (store : Store) (scope : Nat) (name : String) : Prop :=
  ∃ value, (store.scope? scope).bind (·.find? name) = some value

/-- No scope is lost, the old scopes other than `scope` are as they were, all old scopes have their
old parents, and `scope` has at least the names it had. -/
structure KeepsOutside (scope : Nat) (before after : Store) : Prop where
  size_le : before.size ≤ after.size
  others : ∀ other < before.size, other ≠ scope → after.scope? other = before.scope? other
  parents : ∀ other < before.size, after.parent? other = before.parent? other
  names : ∀ name, before.Binds scope name → after.Binds scope name

theorem lt_size_of_binds {store : Store} {scope : Nat} {name : String}
    (bound : store.Binds scope name) : scope < store.size := by
  obtain ⟨value, found⟩ := bound
  refine Nat.lt_of_not_le fun outside => ?_
  have absent : store.scope? scope = none := scope?_eq_none outside
  simp [absent] at found

theorem KeepsOutside.refl (scope : Nat) (store : Store) : KeepsOutside scope store store :=
  ⟨Nat.le_refl _, fun _ _ _ => rfl, fun _ _ => rfl, fun _ bound => bound⟩

theorem KeepsOutside.trans {scope : Nat} {first second third : Store}
    (earlier : KeepsOutside scope first second) (later : KeepsOutside scope second third) :
    KeepsOutside scope first third where
  size_le := Nat.le_trans earlier.size_le later.size_le
  others other old different := by
    rw [later.others other (Nat.lt_of_lt_of_le old earlier.size_le) different,
      earlier.others other old different]
  parents other old := by
    rw [later.parents other (Nat.lt_of_lt_of_le old earlier.size_le), earlier.parents other old]
  names name bound := later.names name (earlier.names name bound)

/-- Binding a name writes to one scope. -/
theorem keepsOutside_bind (store : Store) (scope : Nat) (name : String) (value : Expr) :
    KeepsOutside scope store (store.bind scope name value) where
  size_le := Nat.le_of_eq (size_bind store scope name value).symm
  others other _ different := scope?_bind_of_ne store name value different
  parents other _ := parent?_bind store scope other name value
  names bound := by
    rintro ⟨old, found⟩
    obtain ⟨record, here, inside⟩ := Option.bind_eq_some_iff.mp found
    by_cases same : bound = name
    · subst same
      exact ⟨value, by rw [scope?_bind_self, here]; exact record.find?_bind_self bound value⟩
    · refine ⟨old, ?_⟩
      rw [scope?_bind_self, here]
      exact (record.find?_bind_of_ne value same).trans inside

/-- A store in which all old scopes are as they were is kept outside any scope. -/
theorem keepsOutside_of_scopes {before after : Store} (scope : Nat)
    (grown : before.size ≤ after.size)
    (same : ∀ other < before.size, after.scope? other = before.scope? other) :
    KeepsOutside scope before after where
  size_le := grown
  others other old _ := same other old
  parents other old := by rw [parent?, same other old, parent?]
  names name bound := by
    obtain ⟨value, found⟩ := bound
    exact ⟨value, by rw [same scope (lt_size_of_binds ⟨value, found⟩)]; exact found⟩

/-- A scope that did not exist before can be written to at will. -/
theorem KeepsOutside.scopes_of_create {store after : Store} {bindings : List (String × Expr)}
    {parent : Option Nat} (kept : KeepsOutside store.size (store.create bindings parent) after)
    {other : Nat} (old : other < store.size) : after.scope? other = store.scope? other := by
  have older : other < (store.create bindings parent).size := by
    rw [size_create]
    exact Nat.lt_succ_of_lt old
  rw [kept.others other older (Nat.ne_of_lt old), scope?_create_of_lt store bindings parent old]

end Store

/-! ### Confined actions -/

namespace Action

variable {α β : Type} {scope : Nat}

/-- One action after another, on a world or on any other state. -/
theorem run_bind {σ : Type} (action : ExceptT Fault (StateM σ) α)
    (next : α → ExceptT Fault (StateM σ) β) (state : σ) :
    (action >>= next).run state =
      match action.run state with
      | (.ok value, after) => (next value).run after
      | (.error fault, after) => (.error fault, after) := by
  show (ExceptT.bindCont next (action.run state).1) (action.run state).2 = _
  rcases action.run state with ⟨_ | _, after⟩ <;> rfl

theorem run_lookup (scope : Nat) (name : String) (world : World) :
    (lookup scope name).run world =
      (match world.store.lookup? scope name with
        | some value => pure value
        | none => fail .notFound [.text name] : Action Expr).run world := rfl

theorem run_lookup_eq_ok_iff {scope : Nat} {name : String} {world : World} {value : Expr} :
    (lookup scope name).run world = (.ok value, world) ↔
      world.store.lookup? scope name = some value := by
  rw [run_lookup]
  cases world.store.lookup? scope name with
  | none => exact ⟨(fun failed => nomatch failed), (fun absent => nomatch absent)⟩
  | some found =>
    show ((.ok found, world) : Except Fault Expr × World) = (.ok value, world) ↔ _
    simp

theorem run_lookup_eq_notFound_iff {scope : Nat} {name : String} {world : World} :
    (lookup scope name).run world =
        (.error (.error { kind := .notFound, args := [.text name] }), world) ↔
      world.store.lookup? scope name = none := by
  rw [run_lookup]
  cases world.store.lookup? scope name with
  | none => exact ⟨fun _ => rfl, fun _ => rfl⟩
  | some found => exact ⟨(fun failed => nomatch failed), (fun absent => nomatch absent)⟩

/-- An action after which the store is kept outside one scope, whether or not it fails. -/
def Confined (scope : Nat) (action : Action α) : Prop :=
  ∀ world, Store.KeepsOutside scope world.store (action.run world).2.store

/-- An action that does not touch the store is confined to any scope. -/
theorem confined_of_store_eq {action : Action α}
    (same : ∀ world, (action.run world).2.store = world.store) : Confined scope action := by
  intro world
  rw [same world]
  exact .refl scope world.store

theorem confined_pure (value : α) : Confined scope (pure value : Action α) :=
  confined_of_store_eq fun _ => rfl

theorem confined_throw (fault : Fault) : Confined scope (throw fault : Action α) :=
  confined_of_store_eq fun _ => rfl

theorem confined_fail (kind : ErrorKind) (args : List Arg) :
    Confined scope (fail kind args : Action α) :=
  confined_throw _

/-- One confined action after another. -/
theorem Confined.bind {action : Action α} {next : α → Action β} (first : Confined scope action)
    (second : ∀ value, Confined scope (next value)) : Confined scope (action >>= next) := by
  intro world
  have kept := first world
  rw [run_bind]
  rcases ran : action.run world with ⟨fault | value, after⟩
  · rw [ran] at kept
    exact kept
  · rw [ran] at kept
    exact kept.trans (second value after)

/-- Confined actions for all items of a list. -/
theorem confined_mapM {items : List α} {act : α → Action β}
    (each : ∀ item, Confined scope (act item)) : Confined scope (items.mapM act) := by
  induction items with
  | nil => exact confined_pure []
  | cons first rest previous =>
    rw [List.mapM_cons]
    exact (each first).bind fun value => previous.bind fun values => confined_pure _

theorem confined_lookup (start : Nat) (name : String) : Confined scope (lookup start name) := by
  have read : Confined scope (get : Action World) := confined_of_store_eq fun _ => rfl
  unfold lookup
  refine read.bind fun world => ?_
  split
  · exact confined_pure _
  · exact confined_fail _ _

theorem confined_bindName (name : String) (value : Expr) :
    Confined scope (bindName scope name value) :=
  fun world => world.store.keepsOutside_bind scope name value

theorem confined_trace [Host] (tracing : Tracing) (step : Step) : Confined scope
    (trace tracing step) := by
  refine confined_of_store_eq fun world => ?_
  cases tracing with
  | off => rfl
  | recorded => rfl
  | shown =>
    simp only [trace]
    cases step.line <;> rfl

end Action

/-! ### The native functions -/

namespace Builtin

open Lisplet.Action

variable {scope : Nat}

/-- A native function writes to no scope but the one it is called in. -/
theorem call_confined (builtin : Builtin) (room : Nat) (args : List Expr) :
    Confined scope (builtin.call room scope args) := by
  have rule := builtin.calls room scope args
  generalize builtin.call room scope args = action at rule
  cases rule with
  | wrongCount => exact confined_fail _ _
  | wrongType => exact confined_fail _ _
  | arithmetic => exact confined_pure _
  | overflow => exact confined_fail _ _
  | identity value => exact confined_pure value
  | text content => exact confined_pure _
  | unprintable => exact confined_throw _
  | list args => exact confined_pure _
  | define name value => exact (confined_bindName name _).bind fun _ => confined_pure _
  | flawedBody => exact confined_throw _
  | closure => exact confined_pure _

end Builtin

/-! ### Evaluation -/

namespace Expr

open Lisplet.Action

/-- A call of a closure leaves all old scopes as they are, if its body is confined to the scope of
the call. -/
theorem applyWith_closure_scopes {run : Nat → Expr → Action Expr}
    (body_confined : ∀ scope expr, Confined scope (run scope expr)) (room scope : Nat)
    (params : List String) (body : Expr) (home : Nat) (name : String) (args : List Expr)
    (world : World) :
    let after := ((applyWith run room scope (.closure params body home name) args).run world).2.store
    world.store.size ≤ after.size ∧
      ∀ other < world.store.size, after.scope? other = world.store.scope? other := by
  simp only [applyWith]
  split
  · exact ⟨Nat.le_refl _, fun _ _ => rfl⟩
  · -- The scope of the call has the number that was the size of the store, so it is no old one.
    have kept := body_confined world.store.size body
      { world with store := world.store.create (params.zip args) (some home) }
    refine ⟨?_, fun other old => kept.scopes_of_create old⟩
    exact Nat.le_trans (by simp) kept.size_le

/-- A call writes to no old scope but the calling one, if the bodies of closures are confined to the
scopes of their calls. -/
theorem applyWith_confined {run : Nat → Expr → Action Expr}
    (body_confined : ∀ scope expr, Confined scope (run scope expr)) (room scope : Nat)
    (function : Expr) (args : List Expr) :
    Confined scope (applyWith run room scope function args) := by
  cases function with
  | native builtin => exact builtin.call_confined room args
  | closure params body home name =>
    intro world
    obtain ⟨grown, same⟩ :=
      applyWith_closure_scopes body_confined room scope params body home name args world
    exact Store.keepsOutside_of_scopes scope grown same
  | _ => exact confined_fail _ _

variable [Host]

/-- One level of evaluation writes to no old scope but its own, if that is so one level further down. -/
theorem evalForm_confined {run : Nat → Expr → Action Expr}
    (confined : ∀ scope expr, Confined scope (run scope expr)) (tracing : Tracing) (room : Nat)
    (depth : Int) (scope : Nat) (expr : Expr) :
    Confined scope (evalForm tracing run room depth scope expr) := by
  cases expr with
  | identifier name => exact confined_lookup scope name
  | list items =>
    cases items with
    | nil => exact confined_fail _ _
    | cons head rest =>
      rw [evalForm]
      refine (confined scope head).bind fun function => ?_
      split
      · refine (confined_mapM fun item => confined scope item).bind fun args => ?_
        refine (applyWith_confined confined room scope function args).bind fun value => ?_
        exact (confined_trace _ _).bind fun _ => confined_pure value
      · exact confined_fail _ _
  | _ => exact confined_pure _

/-- An evaluation writes to no old scope but its own. -/
theorem evalWithin_confined (settings : Settings) (room : Nat) (depth : Int) (scope : Nat)
    (expr : Expr) : Confined scope (evalWithin settings room depth scope expr) := by
  induction room generalizing depth scope expr with
  | zero => exact confined_throw _
  | succ room deeper =>
    rw [evalWithin]
    split
    · exact confined_fail _ _
    · exact evalForm_confined (deeper (depth + 1)) settings.tracing room depth scope expr

/-- **The frame of evaluation.** Whether an evaluation gives a value or fails, the old scopes other
than its own are as they were, no old scope has another parent, and its own scope has lost no name.
A call of a closure leaves every old scope as it was, the calling one and the captured one included.
-/
theorem eval_and_apply_frame (settings : Settings) (depth : Int) (scope : Nat) (world : World) :
    (∀ expr : Expr, Store.KeepsOutside scope world.store
      ((expr.eval settings depth scope).run world).2.store) ∧
    ∀ (params : List String) (body : Expr) (home : Nat) (name : String) (args : List Expr),
      let after := ((apply settings depth scope (.closure params body home name) args).run world).2
      ∀ other < world.store.size, after.store.scope? other = world.store.scope? other := by
  refine ⟨fun expr => evalWithin_confined settings _ depth scope expr world, ?_⟩
  intro params body home name args
  have body_confined : ∀ inner expr, Confined inner (eval settings (depth + 1) inner expr) :=
    fun inner expr => evalWithin_confined settings _ (depth + 1) inner expr
  exact (applyWith_closure_scopes body_confined _ scope params body home name args world).2

end Expr

end Lisplet
