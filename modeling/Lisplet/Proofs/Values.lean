import Lisplet.Proofs.Frame
import Lisplet.Proofs.Literals

/-!
The values of a store.

A closure keeps the number of the scope it was made in, so what counts as a value depends on how
many scopes there are. A store is sound if every parent is older than its children and every binding is a
value of that store; scopes are never removed, so values stay values.

* `Expr.IsValue`: the values of a store with so many scopes.
* `Store.Sound`: the invariant of a store.
* `Store.Sound.ancestry_chain`: the chain of a scope leads over its parents up to one without.
* `Action.Keeps`: an action that keeps stores sound, also if it fails, with what holds of its value.
* `Builtin.call_keeps`, `Expr.applyWith_keeps`: calls of functions.
* `Expr.evalForm_keeps`, `Expr.evalWithin_keeps`, `Expr.eval_keeps`: evaluations of forms.
-/

namespace Lisplet

/-! ### Values -/

/-- A function that a program can make while there are `size` scopes. -/
structure ClosureFormed (size : Nat) (params : List String) (body : Expr) (scope : Nat) : Prop where
  captured : scope < size
  distinct : params.Nodup
  names : ∀ param ∈ params, ∀ limit, Expr.ReadsAs limit param (.identifier param)
  form : body.IsForm
  levels : (body.nesting : Int) ≤ defaultLimit

namespace Expr

/-- The leaves of values: literals and functions, but no identifiers. -/
def IsValueLeaf (size : Nat) : Expr → Prop
  | .identifier _ => False
  | .string _ => True
  | .integer value => IsInt32 value
  | .float value => IsUnsigned value
  | .list _ => False
  | .native _ => True
  | .closure params body scope _ => ClosureFormed size params body scope

/-- A value of a store with `size` scopes. -/
def IsValue (size : Nat) (expr : Expr) : Prop :=
  expr.AllLeaves (IsValueLeaf size)

variable {size larger : Nat}

theorem isValue_of_leaf {expr : Expr} (leaf : expr.IsValueLeaf size) : expr.IsValue size :=
  allLeaves_of_holds (fun _ => id) leaf

theorem IsValue.leaf {expr : Expr} (value : expr.IsValue size) (self : expr.leaves = [expr]) :
    expr.IsValueLeaf size :=
  value expr (by rw [self]; exact List.mem_singleton_self expr)

/-- Values stay values when scopes are added. -/
theorem IsValue.mono {expr : Expr} (value : expr.IsValue size) (more : size ≤ larger) :
    expr.IsValue larger := by
  refine value.imp fun leaf holds => ?_
  cases leaf with
  | closure params body scope name =>
    exact { holds with captured := Nat.lt_of_lt_of_le holds.captured more }
  | _ => exact holds

end Expr

/-! ### Sound stores -/

namespace Store

/-- Every parent is older than its children, and every binding is a value. -/
structure Sound (store : Store) : Prop where
  parents : ∀ index parent, store.parent? index = some parent → parent < index
  values : ∀ index scope, store.scope? index = some scope → ∀ binding ∈ scope.bindings,
    binding.2.IsValue store.size

/-- The scopes on the way from a scope over its parents to one that has none. -/
inductive Ancestry (store : Store) : Nat → List Nat → Prop
  | root {index : Nat} (top : store.parent? index = none) : Ancestry store index [index]
  | child {index parent : Nat} {ancestors : List Nat} (up : store.parent? index = some parent)
      (rest : Ancestry store parent ancestors) : Ancestry store index (index :: ancestors)

variable {store : Store}

/-- The chain of a scope is not cut short. -/
theorem Sound.ancestry_chain (sound : store.Sound) (index : Nat) :
    store.Ancestry index (store.chain index) := by
  induction index using Nat.strong_induction_on with
  | _ index older =>
    unfold chain
    cases up : store.parent? index with
    | none => exact .root up
    | some parent =>
      have before : parent < index := sound.parents index parent up
      show store.Ancestry index (if parent < index then index :: store.chain parent else [index])
      rw [if_pos before]
      exact .child up (older parent before)

theorem Sound.isValue_of_lookup? (sound : store.Sound) {index : Nat} {name : String} {value : Expr}
    (found : store.lookup? index name = some value) : value.IsValue store.size := by
  obtain ⟨ancestor, _, bound⟩ := List.exists_of_findSome?_eq_some found
  obtain ⟨scope, here, inside⟩ := Option.bind_eq_some_iff.mp bound
  obtain ⟨before, after, split, _⟩ := List.lookup_eq_some_iff.mp inside
  exact sound.values ancestor scope here (name, value) (by simp [split])

theorem Sound.bind (sound : store.Sound) (index : Nat) (name : String) {value : Expr}
    (fits : value.IsValue store.size) : (store.bind index name value).Sound where
  parents other parent up := by
    rw [parent?_bind] at up
    exact sound.parents other parent up
  values other scope here binding member := by
    rw [size_bind]
    by_cases same : other = index
    · subst same
      rw [scope?_bind_self] at here
      obtain ⟨old, was, rfl⟩ := Option.map_eq_some_iff.mp here
      obtain rfl | kept := List.mem_cons.mp member
      · exact fits
      · exact sound.values other old was binding (List.mem_of_mem_filter kept)
    · rw [scope?_bind_of_ne store name value same] at here
      exact sound.values other scope here binding member

theorem mem_bindings_bindAll {scope : Scope} {bindings : List (String × Expr)}
    {binding : String × Expr} (member : binding ∈ (scope.bindAll bindings).bindings) :
    binding ∈ scope.bindings ∨ binding ∈ bindings := by
  induction bindings generalizing scope with
  | nil => exact .inl member
  | cons first rest previous =>
    have remaining : binding ∈ ((scope.bind first.1 first.2).bindAll rest).bindings := member
    obtain inside | later := previous remaining
    · obtain rfl | kept := List.mem_cons.mp inside
      · exact .inr List.mem_cons_self
      · exact .inl (List.mem_of_mem_filter kept)
    · exact .inr (List.mem_cons_of_mem _ later)

theorem Sound.create (sound : store.Sound) {bindings : List (String × Expr)} {parent : Option Nat}
    (older : ∀ above, parent = some above → above < store.size)
    (fit : ∀ binding ∈ bindings, binding.2.IsValue store.size) :
    (store.create bindings parent).Sound := by
  -- An index is that of an old scope, that of the new one, or behind both.
  have scopes : ∀ index scope, (store.create bindings parent).scope? index = some scope →
      store.scope? index = some scope ∨
        index = store.size ∧ scope = Scope.bindAll { parent } bindings := by
    intro index scope here
    rcases Nat.lt_trichotomy index store.size with old | rfl | outside
    · rw [scope?_create_of_lt store bindings parent old] at here
      exact .inl here
    · rw [scope?_create_size] at here
      exact .inr ⟨rfl, (Option.some.inj here).symm⟩
    · have inside : index < (store.create bindings parent).size :=
        (Array.getElem?_eq_some_iff.mp here).1
      rw [size_create] at inside
      omega
  refine ⟨fun index above up => ?_, fun index scope here binding member => ?_⟩
  · obtain ⟨scope, here, link⟩ := Option.bind_eq_some_iff.mp up
    obtain old | ⟨rfl, rfl⟩ := scopes index scope here
    · exact sound.parents index above (Option.bind_eq_some_iff.mpr ⟨scope, old, link⟩)
    · rw [Scope.parent_bindAll] at link
      exact older above link
  · have grown : store.size ≤ (store.create bindings parent).size := by
      rw [size_create]
      exact Nat.le_succ _
    obtain old | ⟨rfl, rfl⟩ := scopes index scope here
    · exact (sound.values index scope old binding member).mono grown
    · obtain inside | given := mem_bindings_bindAll member
      · cases inside
      · exact (fit binding given).mono grown

theorem sound_initial : initial.Sound := by
  have nothing : Sound {} := by
    constructor
    · intro index parent up
      simp [parent?, scope?] at up
    · intro index scope here
      simp [scope?] at here
  refine nothing.create (fun above root => ?_) fun binding member => ?_
  · cases root
  obtain ⟨builtin, _, rfl⟩ := List.mem_map.mp member
  exact Expr.isValue_of_leaf trivial

end Store

/-! ### Actions that keep stores sound -/

namespace Action

variable {α β : Type} {size : Nat}

/-- From a sound store with at least `size` scopes, an action leads to a sound store with no fewer,
whether or not it fails; a value that it gives holds for the scopes that there are then. -/
def Keeps (size : Nat) (action : Action α) (holds : Nat → α → Prop) : Prop :=
  ∀ world, size ≤ world.store.size → world.store.Sound →
    world.store.size ≤ (action.run world).2.store.size ∧ (action.run world).2.store.Sound ∧
      ∀ value, (action.run world).1 = .ok value → holds (action.run world).2.store.size value

/-- An action that gives a value of the store. -/
abbrev KeepsValue (size : Nat) (action : Action Expr) : Prop :=
  Keeps size action fun later value => value.IsValue later

theorem keeps_pure {value : α} {holds : Nat → α → Prop}
    (given : ∀ later, size ≤ later → holds later value) : Keeps size (pure value) holds := by
  intro world enough sound
  refine ⟨Nat.le_refl _, sound, fun other same => ?_⟩
  cases same
  exact given _ enough

theorem keepsValue_pure {value : Expr} (fits : value.IsValue size) : KeepsValue size (pure value) :=
  keeps_pure fun _ more => fits.mono more

theorem keeps_throw (fault : Fault) (holds : Nat → α → Prop) : Keeps size (throw fault) holds :=
  fun _ _ sound => ⟨Nat.le_refl _, sound, fun _ same => nomatch same⟩

theorem keeps_fail (kind : ErrorKind) (args : List Arg) (holds : Nat → α → Prop) :
    Keeps size (fail kind args) holds :=
  keeps_throw _ _

/-- One action after another, which starts with the scopes that the first one left. -/
theorem Keeps.bind {action : Action α} {next : α → Action β} {holds : Nat → α → Prop}
    {holdsNext : Nat → β → Prop} (first : Keeps size action holds)
    (second : ∀ later, size ≤ later → ∀ value, holds later value →
      Keeps later (next value) holdsNext) :
    Keeps size (action >>= next) holdsNext := by
  intro world enough sound
  obtain ⟨grown, kept, result⟩ := first world enough sound
  rw [run_bind]
  rcases ran : action.run world with ⟨fault | value, middle⟩ <;> rw [ran] at grown kept result
  · exact ⟨grown, kept, fun _ same => nomatch same⟩
  · obtain ⟨grownNext, keptNext, resultNext⟩ := second _ (Nat.le_trans enough grown) value
      (result value rfl) middle (Nat.le_refl _) kept
    exact ⟨Nat.le_trans grown grownNext, keptNext, resultNext⟩

theorem keeps_mapM {items : List α} {act : α → Action Expr}
    (each : ∀ later, size ≤ later → ∀ item ∈ items, KeepsValue later (act item)) :
    Keeps size (items.mapM act) fun later values => ∀ value ∈ values, value.IsValue later := by
  induction items generalizing size with
  | nil => exact keeps_pure fun _ _ => by simp
  | cons item rest previous =>
    rw [List.mapM_cons]
    refine (each size (Nat.le_refl _) item List.mem_cons_self).bind fun later more value fits => ?_
    refine (previous fun last further other member => ?_).bind fun last further values fit => ?_
    · exact each last (Nat.le_trans more further) other (List.mem_cons_of_mem _ member)
    · refine keeps_pure fun final beyond => ?_
      rw [List.forall_mem_cons]
      refine ⟨fits.mono (Nat.le_trans further beyond), fun other member => ?_⟩
      exact (fit other member).mono beyond

theorem keepsValue_lookup (scope : Nat) (name : String) : KeepsValue size (lookup scope name) := by
  intro world enough sound
  rw [run_lookup]
  cases bound : world.store.lookup? scope name with
  | some value => exact keepsValue_pure (sound.isValue_of_lookup? bound) world (Nat.le_refl _) sound
  | none => exact keeps_fail _ _ _ world enough sound

theorem keeps_bindName (scope : Nat) (name : String) {value : Expr} (fits : value.IsValue size) :
    Keeps size (bindName scope name value) fun _ _ => True := by
  intro world enough sound
  refine ⟨?_, sound.bind scope name (fits.mono enough), fun _ _ => trivial⟩
  exact Nat.le_of_eq (world.store.size_bind scope name value).symm

/-- The number that is given is that of a scope. -/
theorem keeps_createScope {bindings : List (String × Expr)} {parent : Nat} (older : parent < size)
    (fit : ∀ binding ∈ bindings, binding.2.IsValue size) :
    Keeps size (createScope bindings parent) fun later index => index < later := by
  intro world enough sound
  have grown : world.store.size + 1 = (world.store.create bindings (some parent)).size :=
    (world.store.size_create bindings (some parent)).symm
  refine ⟨?_, sound.create (fun above same => ?_) fun binding member => ?_, fun index same => ?_⟩
  · exact Nat.le_trans (Nat.le_succ _) (Nat.le_of_eq grown)
  · cases same
    exact Nat.lt_of_lt_of_le older enough
  · exact (fit binding member).mono enough
  · cases same
    exact Nat.lt_of_succ_le (Nat.le_of_eq grown)

theorem keeps_trace [Host] (tracing : Tracing) (step : Step) :
    Keeps size (trace tracing step) fun _ _ => True := by
  intro world enough sound
  have same : ((trace tracing step).run world).2.store = world.store := by
    cases tracing with
    | off => rfl
    | recorded => rfl
    | shown =>
      simp only [trace]
      cases step.line <;> rfl
  rw [same]
  exact ⟨Nat.le_refl _, sound, fun _ _ => trivial⟩

end Action

/-! ### Calls -/

theorem Builtin.isValue_named {size : Nat} {value : Expr} (name : String)
    (fits : value.IsValue size) : (Builtin.named name value).IsValue size := by
  cases value with
  | closure params body scope old => exact Expr.isValue_of_leaf (fits.leaf rfl)
  | _ => exact fits

/-- A function that is made from texts is one that a program can make. -/
theorem closureFormed_of_read {size scope : Nat} {params : String} {names : List String}
    {cursor after : Cursor} {form : Expr} (inside : scope < size)
    (read : cursor.readForm defaultLimit = (.ok form, after))
    (distinct : params? params = some names) : ClosureFormed size names form scope := by
  simp only [params?] at distinct
  split at distinct
  · rename_i accepted
    cases distinct
    have fits : HasRoom defaultLimit 0 form.nesting := (Cursor.legible_of_readForm read).2
    refine ⟨inside, accepted.2, fun param member limit => ?_, Cursor.isForm_of_readForm read, ?_⟩
    · exact readsAs_of_isName (List.all_eq_true.mp accepted.1 param member) limit
    · unfold HasRoom defaultLimit at fits
      unfold defaultLimit
      omega
  · cases distinct

theorem Expr.isInt32_of_fits {value : Int} (inside : fits value = true) : IsInt32 value := by
  unfold IsInt32
  simpa only [fits, Bool.and_eq_true, decide_eq_true_eq] using inside

theorem Builtin.call_keeps {size scope : Nat} (inside : scope < size) (builtin : Builtin)
    (room : Nat)
    {args : List Expr} (fit : ∀ arg ∈ args, arg.IsValue size) :
    Action.KeepsValue size (builtin.call room scope args) := by
  have rule := builtin.calls room scope args
  generalize builtin.call room scope args = action at rule
  cases rule with
  | wrongCount => exact Action.keeps_fail _ _ _
  | wrongType => exact Action.keeps_fail _ _ _
  | arithmetic exact32 =>
    exact Action.keepsValue_pure (Expr.isValue_of_leaf (Expr.isInt32_of_fits exact32))
  | overflow => exact Action.keeps_fail _ _ _
  | identity value => exact Action.keepsValue_pure (fit value List.mem_cons_self)
  | text content => exact Action.keepsValue_pure (Expr.isValue_of_leaf trivial)
  | unprintable => exact Action.keeps_throw _ _
  | list args => exact Action.keepsValue_pure (Expr.allLeaves_list_iff.mpr fit)
  | define name value =>
    have given : value.IsValue size := fit value (by simp)
    have bound : (named name value).IsValue size := isValue_named name given
    refine (Action.keeps_bindName scope name bound).bind fun later more _ _ => ?_
    exact Action.keepsValue_pure (bound.mono more)
  | flawedBody => exact Action.keeps_throw _ _
  | closure read single distinct =>
    exact Action.keepsValue_pure (Expr.isValue_of_leaf (closureFormed_of_read inside read distinct))

namespace Expr

open Lisplet.Action

/-- A call keeps stores sound if the evaluation of function bodies does. -/
theorem applyWith_keeps {run : Nat → Expr → Action Expr}
    (body : ∀ size scope expr, scope < size → IsForm expr → KeepsValue size (run scope expr))
    {size scope : Nat} (inside : scope < size) (room : Nat) {function : Expr}
    (known : function.IsValue size) {args : List Expr} (fit : ∀ arg ∈ args, arg.IsValue size) :
    KeepsValue size (applyWith run room scope function args) := by
  cases function with
  | native builtin => exact builtin.call_keeps inside room fit
  | closure params form home name =>
    have formed : ClosureFormed size params form home := known.leaf rfl
    simp only [applyWith]
    split
    · exact keeps_fail _ _ _
    · refine (keeps_createScope formed.captured fun binding member => ?_).bind
        fun later more inner created => body later inner form created formed.form
      exact fit _ (List.of_mem_zip member).2
  | _ => exact keeps_fail _ _ _

variable [Host]

/-- One level of the evaluation of a form keeps stores sound, if the next one does. -/
theorem evalForm_keeps {run : Nat → Expr → Action Expr}
    (inner : ∀ size scope expr, scope < size → IsForm expr → KeepsValue size (run scope expr))
    (tracing : Tracing) (room : Nat) (depth : Int) {size scope : Nat} {expr : Expr}
    (inside : scope < size) (form : expr.IsForm) :
    KeepsValue size (evalForm tracing run room depth scope expr) := by
  cases expr with
  | identifier name => exact keepsValue_lookup scope name
  | list items =>
    rw [IsForm, allLeaves_list_iff] at form
    cases items with
    | nil => exact keeps_fail _ _ _
    | cons head rest =>
      rw [evalForm]
      refine (inner size scope head inside (form head List.mem_cons_self)).bind
        fun second more function known => ?_
      have insideThen : scope < second := Nat.lt_of_lt_of_le inside more
      split
      · refine (keeps_mapM fun later further item member => ?_).bind
          fun third further args fit => ?_
        · exact inner later scope item (Nat.lt_of_lt_of_le insideThen further)
            (form item (List.mem_cons_of_mem _ member))
        refine (applyWith_keeps inner (Nat.lt_of_lt_of_le insideThen further) room
          (known.mono further) fit).bind fun fourth beyond value fits => ?_
        refine (keeps_trace _ _).bind fun last final _ _ => ?_
        exact keepsValue_pure (fits.mono final)
      · exact keeps_fail _ _ _
  | string text => exact keepsValue_pure (isValue_of_leaf trivial)
  | integer value =>
    have literal : IsInt32 value := form _ (List.mem_singleton_self _)
    exact keepsValue_pure (isValue_of_leaf literal)
  | float value =>
    have literal : IsUnsigned value := form _ (List.mem_singleton_self _)
    exact keepsValue_pure (isValue_of_leaf literal)
  | native builtin => exact (form _ (List.mem_singleton_self _)).elim
  | closure params body home name => exact (form _ (List.mem_singleton_self _)).elim

/-- The evaluation of a form, by induction on the levels that are left. The bodies of closures are forms
too, so the same holds of calls. -/
theorem evalWithin_keeps (settings : Settings) (room : Nat) (depth : Int) {size scope : Nat}
    {expr : Expr} (inside : scope < size) (form : expr.IsForm) :
    KeepsValue size (evalWithin settings room depth scope expr) := by
  induction room generalizing depth size scope expr with
  | zero => exact keeps_throw _ _
  | succ room deeper =>
    rw [evalWithin]
    split
    · exact keeps_fail _ _ _
    · exact evalForm_keeps (fun _ _ _ within body => deeper (depth + 1) within body) _ room depth
        inside form

theorem eval_keeps (settings : Settings) (depth : Int) {size scope : Nat} {expr : Expr}
    (inside : scope < size) (form : expr.IsForm) :
    KeepsValue size (expr.eval settings depth scope) :=
  evalWithin_keeps settings _ depth inside form

end Expr

end Lisplet
