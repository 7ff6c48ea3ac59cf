import Lisplet.Proofs.Failures
import Lisplet.Proofs.Renaming
import Lisplet.Proofs.SessionStates
import Lisplet.Terminal

/-!
Calling a function twice.

A call of a closure creates scopes, and a second call creates them again behind those of the first one.
The two calls go through the same steps, with every new scope of the second call so many numbers above
that of the first one. What a program can see of an outcome does not depend on these numbers.

* `moveUp`: the number that a scope has in the second call.
* `Store.Shadows`: a store of the second call beside that of the first one.
* `Action.Parallel`: two actions that keep stores so related, and whose outcomes are related.
* `Builtin.call_parallel`, `Expr.applyWith_parallel`: calls of functions.
* `Expr.evalWithin_parallel`: evaluation, by induction on the levels that are left.
* `Expr.apply_closure_again`: two calls of a closure in a sound store.
* `Session.calls_carry_no_state`: two calls of a function of any reachable session.
-/

namespace Lisplet

/-! ### Numbers of scopes -/

/-- The numbers from `base` on, moved up by `count`. -/
def moveUp (base count index : Nat) : Nat :=
  if index < base then index else index + count

variable {base count : Nat}

theorem moveUp_of_lt {index : Nat} (old : index < base) : moveUp base count index = index :=
  if_pos old

theorem moveUp_of_le {index : Nat} (new : base ≤ index) :
    moveUp base count index = index + count :=
  if_neg (Nat.not_lt.mpr new)

/-- The order of the numbers is kept. -/
theorem moveUp_lt_iff {first second : Nat} :
    moveUp base count first < moveUp base count second ↔ first < second := by
  unfold moveUp
  split <;> split <;> omega

theorem moveUp_inj {first second : Nat} :
    moveUp base count first = moveUp base count second ↔ first = second := by
  unfold moveUp
  split <;> split <;> omega

/-! ### Scopes -/

namespace Scope

/-- A scope in which the scopes of closures and of the parent are renamed. -/
def rename (move : Nat → Nat) (scope : Scope) : Scope where
  bindings := scope.bindings.map fun binding => (binding.1, binding.2.rename move)
  parent := scope.parent.map move

variable {move : Nat → Nat}

theorem find?_rename (scope : Scope) (name : String) :
    (scope.rename move).find? name = (scope.find? name).map (Expr.rename move) := by
  obtain ⟨bindings, parent⟩ := scope
  simp only [find?, rename]
  induction bindings with
  | nil => rfl
  | cons binding rest previous =>
    obtain ⟨bound, value⟩ := binding
    simp only [List.map_cons, List.lookup_cons, previous]
    cases name == bound <;> rfl

theorem rename_bind (scope : Scope) (name : String) (value : Expr) :
    (scope.bind name value).rename move = (scope.rename move).bind name (value.rename move) := by
  simp only [bind, rename, List.map_cons, List.filter_map]
  rfl

theorem rename_bindAll (scope : Scope) (bindings : List (String × Expr)) :
    (scope.bindAll bindings).rename move = (scope.rename move).bindAll
      (bindings.map fun binding => (binding.1, binding.2.rename move)) := by
  induction bindings generalizing scope with
  | nil => rfl
  | cons binding rest previous =>
    refine (previous (scope.bind binding.1 binding.2)).trans ?_
    rw [rename_bind]
    rfl

/-- A scope that binds values of a store stays the same if the scopes of the store keep their
numbers. -/
theorem rename_eq {size : Nat} {scope : Scope} (kept : ∀ index < size, move index = index)
    (parent : ∀ above, scope.parent = some above → move above = above)
    (values : ∀ binding ∈ scope.bindings, binding.2.IsValue size) : scope.rename move = scope := by
  obtain ⟨bindings, above⟩ := scope
  have bound : bindings.map (fun binding => (binding.1, binding.2.rename move)) = bindings := by
    refine List.map_congr_left (fun binding member => ?_) |>.trans (List.map_id bindings)
    rw [(values binding member).rename_eq kept]
    rfl
  have up : above.map move = above := by
    cases above with
    | none => rfl
    | some index => rw [Option.map_some, parent index rfl]
  rw [rename, bound, up]

end Scope

/-! ### Stores -/

namespace Store

/-- The second store has the scopes of the first one at the numbers they are moved to, with their
closures and parents moved alike. What scopes it has in between does not matter. -/
structure Shadows (base count : Nat) (store later : Store) : Prop where
  reached : base ≤ store.size
  size_eq : later.size = store.size + count
  scopes : ∀ index, later.scope? (moveUp base count index) =
    (store.scope? index).map (Scope.rename (moveUp base count))
  comparable : ∀ index scope, store.scope? index = some scope → ∀ binding ∈ scope.bindings,
    binding.2.Comparable

variable {store later : Store}

theorem Shadows.parent?_eq (shadows : store.Shadows base count later) (index : Nat) :
    later.parent? (moveUp base count index) = (store.parent? index).map (moveUp base count) := by
  rw [parent?, shadows.scopes, parent?]
  cases store.scope? index <;> rfl

/-- A chain is moved scope by scope, since parents stay older than their children. -/
theorem Shadows.chain_eq (shadows : store.Shadows base count later) (index : Nat) :
    later.chain (moveUp base count index) = (store.chain index).map (moveUp base count) := by
  induction index using Nat.strong_induction_on with
  | _ index older =>
    rw [chain, chain, shadows.parent?_eq]
    cases store.parent? index with
    | none => rfl
    | some parent =>
      simp only [Option.map_some, moveUp_lt_iff]
      split
      · rename_i before
        rw [older parent before, List.map_cons]
      · rfl

theorem Shadows.lookup?_eq (shadows : store.Shadows base count later) (index : Nat)
    (name : String) : later.lookup? (moveUp base count index) name =
      (store.lookup? index name).map (Expr.rename (moveUp base count)) := by
  have each : ∀ ancestor,
      (later.scope? (moveUp base count ancestor)).bind (·.find? name) =
        ((store.scope? ancestor).bind (·.find? name)).map (Expr.rename (moveUp base count)) := by
    intro ancestor
    rw [shadows.scopes]
    cases store.scope? ancestor with
    | none => rfl
    | some scope => exact scope.find?_rename name
  rw [lookup?, lookup?, shadows.chain_eq, List.findSome?_map, List.map_findSome?]
  exact congrArg (fun act => List.findSome? act (store.chain index)) (funext each)

theorem Shadows.comparable_of_lookup? (shadows : store.Shadows base count later) {index : Nat}
    {name : String} {value : Expr} (found : store.lookup? index name = some value) :
    value.Comparable := by
  obtain ⟨ancestor, _, bound⟩ := List.exists_of_findSome?_eq_some found
  obtain ⟨scope, here, inside⟩ := Option.bind_eq_some_iff.mp bound
  obtain ⟨before, after, split, _⟩ := List.lookup_eq_some_iff.mp inside
  exact shadows.comparable ancestor scope here (name, value) (by simp [split])

theorem Shadows.bind (shadows : store.Shadows base count later) (index : Nat) (name : String)
    {value other : Expr} (moved : value.Moved (moveUp base count) other) :
    (store.bind index name value).Shadows base count
      (later.bind (moveUp base count index) name other) where
  reached := by
    rw [size_bind]
    exact shadows.reached
  size_eq := by rw [size_bind, size_bind, shadows.size_eq]
  scopes candidate := by
    by_cases same : candidate = index
    · subst same
      rw [scope?_bind_self, scope?_bind_self, shadows.scopes, moved.renamed]
      cases store.scope? candidate with
      | none => rfl
      | some scope => exact congrArg some (scope.rename_bind name value).symm
    · have different : moveUp base count candidate ≠ moveUp base count index :=
        fun equal => same (moveUp_inj.mp equal)
      rw [scope?_bind_of_ne later name other different, scope?_bind_of_ne store name value same,
        shadows.scopes]
  comparable candidate scope here binding member := by
    by_cases same : candidate = index
    · subst same
      rw [scope?_bind_self] at here
      obtain ⟨old, was, rfl⟩ := Option.map_eq_some_iff.mp here
      obtain rfl | kept := List.mem_cons.mp member
      · exact moved.comparable
      · exact shadows.comparable candidate old was binding (List.mem_of_mem_filter kept)
    · rw [scope?_bind_of_ne store name value same] at here
      exact shadows.comparable candidate scope here binding member

/-- A sound store is shadowed by every store that has all its scopes, and more behind them. -/
theorem Sound.shadows (sound : store.Sound) (grown : store.size ≤ later.size)
    (same : ∀ index < store.size, later.scope? index = store.scope? index) :
    store.Shadows store.size (later.size - store.size) later where
  reached := Nat.le_refl _
  size_eq := by omega
  scopes index := by
    by_cases old : index < store.size
    · rw [moveUp_of_lt old, same index old]
      cases here : store.scope? index with
      | none => rfl
      | some scope =>
        refine congrArg some (Scope.rename_eq (fun _ => moveUp_of_lt)
          (fun parent up => moveUp_of_lt ?_) (sound.values index scope here)).symm
        have before := sound.parents index parent (by rw [parent?, here]; exact up)
        exact Nat.lt_trans before old
    · have outside : store.size ≤ index := Nat.not_lt.mp old
      rw [moveUp_of_le outside, scope?_eq_none outside, scope?_eq_none (by omega)]
      rfl
  comparable index scope here binding member :=
    (sound.values index scope here binding member).comparable

theorem Shadows.create (shadows : store.Shadows base count later)
    {bindings : List (String × Expr)} (comparable : ∀ binding ∈ bindings, binding.2.Comparable)
    (parent : Nat) :
    (store.create bindings (some parent)).Shadows base count
      (later.create (bindings.map fun binding => (binding.1, binding.2.rename (moveUp base count)))
        (some (moveUp base count parent))) := by
  have added : later.size = moveUp base count store.size := by
    rw [moveUp_of_le shadows.reached, shadows.size_eq]
  refine ⟨?_, ?_, fun index => ?_, fun index scope here binding member => ?_⟩
  · rw [size_create]
    exact Nat.le_succ_of_le shadows.reached
  · rw [size_create, size_create, shadows.size_eq, Nat.add_right_comm]
  · rcases Nat.lt_trichotomy index store.size with old | rfl | outside
    · have older : moveUp base count index < later.size := by rwa [added, moveUp_lt_iff]
      rw [scope?_create_of_lt later _ _ older, scope?_create_of_lt store _ _ old, shadows.scopes]
    · rw [← added, scope?_create_size, scope?_create_size]
      exact congrArg some (Scope.rename_bindAll { parent := some parent } bindings).symm
    · have behind : later.size < moveUp base count index := by rwa [added, moveUp_lt_iff]
      rw [scope?_eq_none (by rw [size_create]; exact behind),
        scope?_eq_none (by rw [size_create]; exact outside)]
      rfl
  · rcases Nat.lt_trichotomy index store.size with old | rfl | outside
    · rw [scope?_create_of_lt store _ _ old] at here
      exact shadows.comparable index scope here binding member
    · rw [scope?_create_size, Option.some.injEq] at here
      subst here
      obtain inside | given := mem_bindings_bindAll member
      · cases inside
      · exact comparable binding given
    · rw [scope?_eq_none (by rw [size_create]; exact outside)] at here
      cases here

end Store

/-! ### Parallel actions -/

namespace Action

variable {α β : Type} {holds : α → α → Prop} {holdsNext : β → β → Prop}

/-- From stores one of which shadows the other, two actions lead to such stores, and to values that
`holds` relates or to faults that agree. -/
def Parallel (base count : Nat) (holds : α → α → Prop) (action later : Action α) : Prop :=
  ∀ world other : World, world.store.Shadows base count other.store →
    OutcomesAgree holds (action.run world).1 (later.run other).1 ∧
      (action.run world).2.store.Shadows base count (later.run other).2.store

/-- Two actions that give an expression and the same one moved. -/
abbrev ParallelValues (base count : Nat) (action later : Action Expr) : Prop :=
  Parallel base count (Expr.Moved (moveUp base count)) action later

theorem parallel_pure {first second : α} (related : holds first second) :
    Parallel base count holds (pure first) (pure second) :=
  fun _ _ shadows => ⟨.ok related, shadows⟩

theorem parallel_throw {first second : Fault} (agree : first.Agrees second) :
    Parallel base count holds (throw first) (throw second) :=
  fun _ _ shadows => ⟨.error agree, shadows⟩

theorem parallel_fail (kind : ErrorKind) {args others : List Arg}
    (agree : List.Forall₂ Arg.Agrees args others) :
    Parallel base count holds (fail kind args) (fail kind others) :=
  parallel_throw (.error agree rfl)

theorem Parallel.bind {action later : Action α} {next laterNext : α → Action β}
    (first : Parallel base count holds action later)
    (second : ∀ value other, holds value other →
      Parallel base count holdsNext (next value) (laterNext other)) :
    Parallel base count holdsNext (action >>= next) (later >>= laterNext) := by
  intro world other shadows
  obtain ⟨agree, shadowsThen⟩ := first world other shadows
  rw [run_bind, run_bind]
  rcases ran : action.run world with ⟨outcome, middle⟩
  rcases laterRan : later.run other with ⟨laterOutcome, laterMiddle⟩
  rw [ran, laterRan] at agree shadowsThen
  cases agree with
  | ok related => exact second _ _ related middle laterMiddle shadowsThen
  | error agree => exact ⟨.error agree, shadowsThen⟩

/-- Actions for the items of two lists that are related item by item. -/
theorem parallel_mapM {act laterAct : Expr → Action Expr} {items others : List Expr}
    (all : List.Forall₂ (Expr.Moved (moveUp base count)) items others)
    (each : ∀ item other, item.Moved (moveUp base count) other →
      ParallelValues base count (act item) (laterAct other)) :
    Parallel base count (List.Forall₂ (Expr.Moved (moveUp base count))) (items.mapM act)
      (others.mapM laterAct) := by
  induction all with
  | nil => exact parallel_pure .nil
  | @cons item other items others moved _ previous =>
    rw [List.mapM_cons, List.mapM_cons]
    refine (each item other moved).bind fun first second movedFirst => ?_
    refine previous.bind fun firsts seconds movedRest => ?_
    exact parallel_pure (.cons movedFirst movedRest)

theorem parallel_lookup (scope : Nat) (name : String) :
    ParallelValues base count (lookup scope name) (lookup (moveUp base count scope) name) := by
  intro world other shadows
  rw [run_lookup, run_lookup, shadows.lookup?_eq]
  cases found : world.store.lookup? scope name with
  | some value =>
    exact parallel_pure (Expr.moved_rename (shadows.comparable_of_lookup? found)) world other shadows
  | none => exact parallel_fail _ (.cons (.text name) .nil) world other shadows

theorem parallel_bindName (scope : Nat) (name : String) {value other : Expr}
    (moved : value.Moved (moveUp base count) other) :
    Parallel base count (fun _ _ => True) (bindName scope name value)
      (bindName (moveUp base count scope) name other) :=
  fun _ _ shadows => ⟨.ok trivial, shadows.bind scope name moved⟩

/-- The scopes that are created have numbers that belong together. -/
theorem parallel_createScope {bindings : List (String × Expr)}
    (comparable : ∀ binding ∈ bindings, binding.2.Comparable) (parent : Nat) :
    Parallel base count (fun first second => second = moveUp base count first)
      (createScope bindings parent)
      (createScope
        (bindings.map fun binding => (binding.1, binding.2.rename (moveUp base count)))
        (moveUp base count parent)) := by
  intro world other shadows
  refine ⟨.ok ?_, shadows.create comparable parent⟩
  rw [moveUp_of_le shadows.reached, shadows.size_eq]

/-- A step is shown as its counterpart is. -/
theorem parallel_trace [Host] (tracing : Tracing) (depth : Int)
    {expr value otherExpr otherValue : Expr}
    (movedExpr : expr.Moved (moveUp base count) otherExpr)
    (movedValue : value.Moved (moveUp base count) otherValue) :
    Parallel base count (fun _ _ => True) (trace tracing ⟨depth, expr, value⟩)
      (trace tracing ⟨depth, otherExpr, otherValue⟩) := by
  have recorded : Parallel base count (fun _ _ => True) (record ⟨depth, expr, value⟩)
      (record ⟨depth, otherExpr, otherValue⟩) :=
    fun _ _ shadows => ⟨.ok trivial, shadows⟩
  cases tracing with
  | off => exact parallel_pure trivial
  | recorded => exact recorded
  | shown =>
    have line : Step.line ⟨depth, otherExpr, otherValue⟩ = Step.line ⟨depth, expr, value⟩ := by
      simp only [Step.line, Expr.printed, movedExpr.print_eq, movedValue.print_eq]
    simp only [trace, line]
    cases shown : Step.line ⟨depth, expr, value⟩ with
    | ok text => exact recorded
    | error fault =>
      obtain ⟨breakdown, _, rfl, _⟩ := Step.isSayable_of_line shown
      exact parallel_throw (.breakdown breakdown)

end Action

/-! ### The native functions -/

namespace Builtin

open Lisplet.Action

variable {α : Type} {holds : α → α → Prop} {first second otherFirst otherSecond : Expr}

theorem mismatch_parallel (builtin : Builtin) (expected : String)
    (moved : first.Moved (moveUp base count) otherFirst) :
    Parallel base count holds (builtin.mismatch expected first)
      (builtin.mismatch expected otherFirst) :=
  parallel_fail _ (.cons (.text _) (.cons (.text _) (.cons (.expr moved.agrees) .nil)))

theorem expectInteger_parallel (builtin : Builtin)
    (moved : first.Moved (moveUp base count) otherFirst) :
    Parallel base count Eq (builtin.expectInteger first) (builtin.expectInteger otherFirst) := by
  have fails : Parallel base count Eq (builtin.mismatch "integer operands" first : Action Int)
      (builtin.mismatch "integer operands" otherFirst) := mismatch_parallel builtin _ moved
  obtain ⟨rfl, -⟩ := moved
  cases first with
  | integer value => exact parallel_pure rfl
  | _ => exact fails

theorem expectString_parallel (builtin : Builtin) (expected : String)
    (moved : first.Moved (moveUp base count) otherFirst) :
    Parallel base count Eq (builtin.expectString expected first)
      (builtin.expectString expected otherFirst) := by
  have fails : Parallel base count Eq (builtin.mismatch expected first : Action String)
      (builtin.mismatch expected otherFirst) := mismatch_parallel builtin expected moved
  obtain ⟨rfl, -⟩ := moved
  cases first with
  | string content => exact parallel_pure rfl
  | _ => exact fails

theorem arithmetic_parallel (builtin : Builtin)
    (movedFirst : first.Moved (moveUp base count) otherFirst)
    (movedSecond : second.Moved (moveUp base count) otherSecond) :
    ParallelValues base count (builtin.arithmetic first second)
      (builtin.arithmetic otherFirst otherSecond) := by
  refine (builtin.expectInteger_parallel movedFirst).bind ?_
  rintro left _ rfl
  refine (builtin.expectInteger_parallel movedSecond).bind ?_
  rintro right _ rfl
  unfold Expr.ofInt?
  split
  · rename_i found
    split at found
    · cases found
      exact parallel_pure (Expr.moved_integer _)
    · cases found
  · exact parallel_fail _ (.cons (.text _) .nil)

theorem joinTexts_eq_of_moved (room : Nat) {args others : List Expr}
    (all : List.Forall₂ (Expr.Moved (moveUp base count)) args others) :
    joinTexts room others = joinTexts room args := by
  induction all with
  | nil => rfl
  | cons moved _ previous => rw [joinTexts, joinTexts, moved.plain_eq, previous]

/-- What stops `str` agrees with itself. -/
theorem agrees_of_plain {room : Nat} {arg : Expr} {fault : Fault}
    (stuck : arg.plain room = .error fault) : fault.Agrees fault := by
  obtain rfl | unprinted := Expr.error_of_plain stuck
  · exact .exhausted
  · obtain ⟨number, _, rfl⟩ := Expr.exists_of_printed unprinted
    exact .breakdown _

theorem text_parallel (room : Nat) {args others : List Expr}
    (all : List.Forall₂ (Expr.Moved (moveUp base count)) args others) :
    ParallelValues base count (joinTexts room args >>= fun content => pure (.string content))
      (joinTexts room others >>= fun content => pure (.string content)) := by
  rw [joinTexts_eq_of_moved room all]
  rcases joinTexts_eq room args with ⟨content, joined⟩ | ⟨_, _, fault, stuck, joined⟩ <;> rw [joined]
  · exact parallel_pure (Expr.moved_string content)
  · exact parallel_throw (agrees_of_plain stuck)

theorem moved_named (name : String) (moved : first.Moved (moveUp base count) otherFirst) :
    (named name first).Moved (moveUp base count) (named name otherFirst) := by
  cases first with
  | closure params body scope old =>
    obtain ⟨other, rfl, movedBody⟩ := moved.body
    exact Expr.moved_closure movedBody params scope _
  | _ =>
    obtain ⟨rfl, comparable⟩ := moved
    exact Expr.moved_rename comparable

theorem defineName_parallel (scope : Nat)
    (movedName : first.Moved (moveUp base count) otherFirst)
    (movedValue : second.Moved (moveUp base count) otherSecond) :
    ParallelValues base count (defineName scope first second)
      (defineName (moveUp base count scope) otherFirst otherSecond) := by
  refine (Builtin.define.expectString_parallel _ movedName).bind ?_
  rintro name _ rfl
  have moved := moved_named name movedValue
  exact (parallel_bindName scope name moved).bind fun _ _ _ => parallel_pure moved

/-- The body of a function is read from its text alone. -/
theorem readBody_parallel (body : String) :
    Parallel base count (fun first second => first = second ∧ first.IsForm) (readBody body)
      (readBody body) := by
  unfold readBody
  rcases read : (Cursor.ofText body).readForm defaultLimit with ⟨flaw | form, after⟩
  · exact parallel_throw (flaw.agrees_toError body)
  · dsimp only
    split
    · exact parallel_pure ⟨rfl, Cursor.isForm_of_readForm read⟩
    · exact mismatch_parallel _ _ (Expr.moved_string body)

theorem makeClosure_parallel (scope : Nat)
    (movedParams : first.Moved (moveUp base count) otherFirst)
    (movedBody : second.Moved (moveUp base count) otherSecond) :
    ParallelValues base count (makeClosure scope first second)
      (makeClosure (moveUp base count scope) otherFirst otherSecond) := by
  refine (Builtin.function.expectString_parallel _ movedParams).bind ?_
  rintro names _ rfl
  refine (Builtin.function.expectString_parallel _ movedBody).bind ?_
  rintro source _ rfl
  refine (readBody_parallel source).bind ?_
  rintro form _ ⟨rfl, isForm⟩
  unfold paramNames
  cases params? names with
  | some list => exact parallel_pure (Expr.moved_closure isForm.moved list scope _)
  | none => exact mismatch_parallel Builtin.function _ (Expr.moved_string names)

theorem call_of_wrong_count {builtin : Builtin} {expected : Nat}
    (arity : builtin.arity? = some expected) {args : List Expr} (wrong : args.length ≠ expected)
    (room scope : Nat) :
    builtin.call room scope args = Action.fail .arityMismatch
      [.text builtin.name, .number expected, .number args.length] := by
  fun_cases call builtin room scope args with
  | case9 builtin args => rw [arity, Option.getD_some]
  | _ => simp_all [arity?]

/-- A native function does the same with moved arguments. -/
theorem call_parallel (builtin : Builtin) (room scope : Nat) {args others : List Expr}
    (all : List.Forall₂ (Expr.Moved (moveUp base count)) args others) :
    ParallelValues base count (builtin.call room scope args)
      (builtin.call room (moveUp base count scope) others) := by
  by_cases miscounted : ∃ expected, builtin.arity? = some expected ∧ args.length ≠ expected
  · obtain ⟨expected, arity, wrong⟩ := miscounted
    rw [call_of_wrong_count arity wrong, call_of_wrong_count arity (all.length_eq ▸ wrong),
      all.length_eq]
    exact parallel_fail _ (.cons (.text _) (.cons (.number _) (.cons (.number _) .nil)))
  have counted : ∀ expected, builtin.arity? = some expected → args.length = expected :=
    fun expected arity => by_contra fun wrong => miscounted ⟨expected, arity, wrong⟩
  have pair : builtin.arity? = some 2 → ∃ first second otherFirst otherSecond,
      args = [first, second] ∧ others = [otherFirst, otherSecond] ∧
        first.Moved (moveUp base count) otherFirst ∧
        second.Moved (moveUp base count) otherSecond := by
    intro arity
    obtain ⟨first, second, rfl⟩ := List.length_eq_two.mp (counted 2 arity)
    obtain ⟨otherFirst, _, movedFirst, rest, rfl⟩ := List.forall₂_cons_left_iff.mp all
    obtain ⟨otherSecond, _, movedSecond, none, rfl⟩ := List.forall₂_cons_left_iff.mp rest
    obtain rfl := List.forall₂_nil_left_iff.mp none
    exact ⟨first, second, otherFirst, otherSecond, rfl, rfl, movedFirst, movedSecond⟩
  cases builtin with
  | text => exact text_parallel room all
  | list => exact parallel_pure (Expr.moved_list all)
  | identity =>
    obtain ⟨value, rfl⟩ := List.length_eq_one_iff.mp (counted 1 rfl)
    obtain ⟨other, _, moved, none, rfl⟩ := List.forall₂_cons_left_iff.mp all
    obtain rfl := List.forall₂_nil_left_iff.mp none
    exact parallel_pure moved
  | define =>
    obtain ⟨first, second, _, _, rfl, rfl, movedFirst, movedSecond⟩ := pair rfl
    exact defineName_parallel scope movedFirst movedSecond
  | function =>
    obtain ⟨first, second, _, _, rfl, rfl, movedFirst, movedSecond⟩ := pair rfl
    exact makeClosure_parallel scope movedFirst movedSecond
  | add | subtract | multiply =>
    obtain ⟨first, second, _, _, rfl, rfl, movedFirst, movedSecond⟩ := pair rfl
    exact arithmetic_parallel _ movedFirst movedSecond

end Builtin

/-! ### Evaluation -/

namespace Expr

open Lisplet.Action

theorem zip_of_moved (params : List String) {args others : List Expr}
    (all : List.Forall₂ (Moved (moveUp base count)) args others) :
    params.zip others =
        (params.zip args).map (fun binding => (binding.1, binding.2.rename (moveUp base count))) ∧
      ∀ binding ∈ params.zip args, binding.2.Comparable := by
  induction all generalizing params with
  | nil => simp
  | @cons arg other args others moved _ previous =>
    cases params with
    | nil => simp
    | cons param params =>
      obtain ⟨zipped, comparable⟩ := previous params
      rw [List.zip_cons_cons, List.zip_cons_cons, List.map_cons, zipped, List.forall_mem_cons,
        moved.renamed]
      exact ⟨rfl, moved.comparable, comparable⟩

theorem applyWith_parallel {run laterRun : Nat → Expr → Action Expr}
    (body : ∀ scope expr other, expr.Moved (moveUp base count) other →
      ParallelValues base count (run scope expr) (laterRun (moveUp base count scope) other))
    (room scope : Nat) {function other : Expr} (moved : function.Moved (moveUp base count) other)
    {args others : List Expr} (all : List.Forall₂ (Moved (moveUp base count)) args others) :
    ParallelValues base count (applyWith run room scope function args)
      (applyWith laterRun room (moveUp base count scope) other others) := by
  cases function with
  | native builtin =>
    obtain ⟨rfl, -⟩ := moved
    exact builtin.call_parallel room scope all
  | closure params form home name =>
    obtain ⟨otherForm, rfl, movedForm⟩ := moved.body
    obtain ⟨zipped, comparable⟩ := zip_of_moved params all
    simp only [applyWith, ← all.length_eq, zipped]
    split
    · exact parallel_fail _ (.cons (.text _) (.cons (.number _) (.cons (.number _) .nil)))
    · refine (parallel_createScope comparable home).bind ?_
      rintro inner _ rfl
      exact body inner form otherForm movedForm
  | _ =>
    have agree := List.Forall₂.cons (Arg.Agrees.expr moved.agrees) .nil
    obtain ⟨rfl, -⟩ := moved
    exact parallel_fail .notAFunction agree

section Calls

variable [Host]

/-- One level of two evaluations of the same expression, if the next one stays side by side. -/
theorem evalForm_parallel {run laterRun : Nat → Expr → Action Expr}
    (inner : ∀ scope expr other, expr.Moved (moveUp base count) other →
      ParallelValues base count (run scope expr) (laterRun (moveUp base count scope) other))
    (tracing : Tracing) (room : Nat) (depth : Int) (scope : Nat) {expr other : Expr}
    (moved : expr.Moved (moveUp base count) other) :
    ParallelValues base count (evalForm tracing run room depth scope expr)
      (evalForm tracing laterRun room depth (moveUp base count scope) other) := by
  cases expr with
  | identifier name =>
    obtain ⟨rfl, -⟩ := moved
    exact parallel_lookup scope name
  | list items =>
    obtain ⟨others, rfl, all⟩ := moved.items
    cases all with
    | nil => exact parallel_fail _ .nil
    | cons movedHead movedRest =>
      rw [evalForm, evalForm]
      refine (inner scope _ _ movedHead).bind fun function otherFunction known => ?_
      rw [known.isFunction_eq]
      split
      · refine (parallel_mapM movedRest fun _ _ => inner scope _ _).bind
          fun args otherArgs movedArgs => ?_
        refine (applyWith_parallel inner room scope known movedArgs).bind
          fun value otherValue movedValue => ?_
        refine (parallel_trace tracing depth moved movedValue).bind fun _ _ _ => ?_
        exact parallel_pure movedValue
      · exact parallel_fail _ (.cons (.expr known.agrees) .nil)
  | closure params form home name =>
    obtain ⟨otherForm, rfl, movedForm⟩ := moved.body
    exact parallel_pure moved
  | _ =>
    obtain ⟨rfl, comparable⟩ := moved
    exact parallel_pure (moved_rename comparable)

/-- Two evaluations of the same expression with the same room stay side by side. The induction is on
the levels that are left, since the bodies of closures are no parts of the expression. -/
theorem evalWithin_parallel (settings : Settings) (room : Nat) (depth : Int) (scope : Nat)
    {expr other : Expr} (moved : expr.Moved (moveUp base count) other) :
    ParallelValues base count (evalWithin settings room depth scope expr)
      (evalWithin settings room depth (moveUp base count scope) other) := by
  induction room generalizing depth scope expr other with
  | zero => exact parallel_throw .exhausted
  | succ room deeper =>
    rw [evalWithin, evalWithin]
    split
    · exact parallel_fail _ (.cons (.number _) .nil)
    · exact evalForm_parallel (fun inner _ _ => deeper (depth + 1) inner) _ room depth scope moved

/-! ### Two calls -/

/-- A closure is called alike, and with agreeing outcomes, before and after a call of it: the second
call finds all scopes as the first one did, and those that the first one left behind are out of its
reach. -/
theorem apply_closure_again (settings : Settings) (depth : Int) (caller : Nat) {store : Store}
    (steps : Array Step) (sound : store.Sound) {params : List String} {body : Expr} {home : Nat}
    {name : String} (known : IsValue store.size (.closure params body home name))
    {args : List Expr} (fit : ∀ arg ∈ args, arg.IsValue store.size) :
    let call := apply settings depth caller (.closure params body home name) args
    OutcomesAgree Agrees (call.run { store, steps }).1
      (call.run (call.run { store, steps }).2).1 := by
  intro call
  obtain ⟨grown, same⟩ := applyWith_closure_scopes
    (fun inner expr => evalWithin_confined settings _ (depth + 1) inner expr) Host.stackLevels caller
    params body home name args { store, steps }
  have shadows := sound.shadows grown same
  have kept : ∀ index < store.size,
      moveUp store.size ((call.run { store, steps }).2.store.size - store.size) index = index :=
    fun _ old => moveUp_of_lt old
  have moved := known.moved kept
  have all := List.forall₂_same.mpr fun arg member => (fit arg member).moved kept
  have parallel := applyWith_parallel
    (fun inner _ _ => evalWithin_parallel settings Host.stackLevels (depth + 1) inner)
    Host.stackLevels caller moved all
  exact (parallel { store, steps } _ shadows).1.imp fun _ _ movedValue => movedValue.agrees

end Calls

end Expr

namespace Session

/-- **Functions carry no hidden state.** In every state that a session can reach, whether what led to it
succeeded or failed, take any function in a result or in a bound value. If it is called twice in a row
with the same values of the store, at any depth and below any limit, the two outcomes agree: both are
values that are equal and print alike, or both are errors of the same kind with arguments that do, or
the same breakdown, or both use up the stack. -/
theorem calls_carry_no_state [Host] (console : Console) (path : String) (interactive : Bool)
    (limit : Limit)
    (traced : Bool) (operations : List Operation) (settings : Settings) (depth : Int) (caller : Nat)
    (steps : Array Step) :
    let reached := (start console path interactive limit traced).after operations
    ∀ holder params body home name, reached.Holds holder →
      .closure params body home name ∈ holder.leaves →
      ∀ args : List Expr, (∀ arg ∈ args, arg.IsValue reached.store.size) →
        let call := Expr.apply settings depth caller (.closure params body home name) args
        let first := call.run { store := reached.store, steps }
        let second := call.run first.2
        OutcomesAgree Expr.Agrees first.1 second.1 := by
  intro reached holder params body home name held inside args fit
  have sound : reached.Sound := (sound_start console path interactive limit traced).after operations
  have known : Expr.IsValue reached.store.size (.closure params body home name) :=
    Expr.isValue_of_leaf (sound.isValue held _ inside)
  exact Expr.apply_closure_again settings depth caller steps sound.store known fit

/-- A call of `f` defines `y` in its own scope, calls it, and gives it out. The two calls give closures
over different scopes, which agree. -/
theorem calls_carry_no_state_inner_function :
    let code := "(def \"n\" \"y\") (def \"p\" \"z\") (def \"b\" \"(+ x z)\")
      (def \"f\" (fn \"x\" \"(list (def n (fn p b)) (y 1) x)\"))"
    let body := .list [.identifier "list",
      .list [.identifier "def", .identifier "n",
        .list [.identifier "fn", .identifier "p", .identifier "b"]],
      .list [.identifier "y", .integer 1], .identifier "x"]
    let function := .closure ["x"] body 0 "f"
    let sum := .list [.identifier "+", .identifier "x", .identifier "z"]
    let call := Expr.apply {} 0 0 function [.integer 7]
    ∃ reached, (start {} interactivePath true .standard false).after [.add code 1, .run] = reached ∧
      reached.Holds function ∧
      let first := call.run { store := reached.store }
      let second := call.run first.2
      first.1 = .ok (.list [.closure ["z"] sum 1 "y", .integer 8, .integer 7]) ∧
        second.1 = .ok (.list [.closure ["z"] sum 3 "y", .integer 8, .integer 7]) ∧
        OutcomesAgree Expr.Agrees first.1 second.1 := by
  intro code body function sum call
  have computed :
      let reached := (start {} interactivePath true .standard false).after [.add code 1, .run]
      let first := call.run { store := reached.store }
      reached.results[3]? = some function ∧
        first.1 = .ok (.list [.closure ["z"] sum 1 "y", .integer 8, .integer 7]) ∧
        (call.run first.2).1 = .ok (.list [.closure ["z"] sum 3 "y", .integer 8, .integer 7]) := by
    decide +kernel
  have agree := calls_carry_no_state {} interactivePath true .standard false
    [.add code 1, .run] {} 0 0 #[] function ["x"] body 0 "f"
  generalize (start {} interactivePath true .standard false).after [.add code 1, .run] = reached
    at computed agree ⊢
  obtain ⟨found, firstly, secondly⟩ := computed
  have held : reached.Holds function := .inl (Array.mem_of_getElem? found)
  refine ⟨reached, rfl, held, firstly, secondly, ?_⟩
  refine agree held (List.mem_singleton_self _) [.integer 7] fun arg member => ?_
  rw [List.mem_singleton.mp member]
  exact Expr.isValue_of_leaf ⟨by decide, by decide⟩

end Session

end Lisplet
