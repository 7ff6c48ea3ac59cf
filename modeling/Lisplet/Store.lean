import Lisplet.Expr.Equality
import Lisplet.Text.Quoted

/-!
Scopes and the store that holds them.

A scope maps names to values and may have a parent. Scopes are numbered in order of creation and never
removed; a scope refers to its parent by number, and a parent is always older than its children.

* `Scope.find?`, `Scope.bind`: the names of a single scope; the last write wins.
* `Store.create`, `Store.bind`: new scopes and new bindings.
* `Store.chain`: a scope and its ancestors, innermost first.
* `Store.lookup?`, `Store.contains`: the value of a name in the nearest scope of a chain that has one, and
  whether there is one.
-/

namespace Lisplet

/-- A map from names to values, and the number of the parent scope if there is one. -/
structure Scope where
  bindings : List (String × Expr) := []
  parent : Option Nat := none
  deriving DecidableEq, Repr, Inhabited

namespace Scope

/-- The value of a name in this scope alone. -/
def find? (scope : Scope) (name : String) : Option Expr :=
  scope.bindings.lookup name

/-- Bind a name, in place of its old binding if there is one. -/
def bind (scope : Scope) (name : String) (value : Expr) : Scope :=
  { scope with bindings := (name, value) :: scope.bindings.filter (·.1 != name) }

/-- Bind several names, one after the other. -/
def bindAll (scope : Scope) (bindings : List (String × Expr)) : Scope :=
  bindings.foldl (fun scope binding => scope.bind binding.1 binding.2) scope

/-- The names bound in this scope alone, in the order of their code points. -/
def names (scope : Scope) : List String :=
  (scope.bindings.map (·.1)).mergeSort (fun first second => decide (first ≤ second))

/-- The bindings of the native functions. -/
def natives : List (String × Expr) :=
  Builtin.all.map fun builtin => (builtin.name, .native builtin)

/-! ### What a binding changes -/

theorem lookup_filter_ne {name other : String} (different : other ≠ name)
    (bindings : List (String × Expr)) :
    (bindings.filter (·.1 != name)).lookup other = bindings.lookup other := by
  induction bindings with
  | nil => rfl
  | cons binding rest previous =>
    obtain ⟨bound, value⟩ := binding
    by_cases same : bound = name
    · subst same
      have missed : (other == bound) = false := by simpa using different
      simp only [List.filter_cons, bne_self_eq_false, Bool.false_eq_true, if_false, previous,
        List.lookup_cons, missed]
    · have kept : (bound != name) = true := by simpa using same
      simp only [List.filter_cons, kept, if_true, List.lookup_cons, previous]

/-- The name that was bound has its new value. -/
theorem find?_bind_self (scope : Scope) (name : String) (value : Expr) :
    (scope.bind name value).find? name = some value := by
  simp [find?, bind]

/-- The other names keep their values. -/
theorem find?_bind_of_ne (scope : Scope) {name other : String} (value : Expr)
    (different : other ≠ name) : (scope.bind name value).find? other = scope.find? other := by
  have missed : (other == name) = false := by simpa using different
  simp only [find?, bind, List.lookup_cons, missed]
  exact lookup_filter_ne different scope.bindings

/-- Of several bindings of a name the last one counts. -/
theorem find?_bindAll (scope : Scope) (bindings : List (String × Expr)) (name : String) :
    (scope.bindAll bindings).find? name = (bindings.reverse.lookup name).or (scope.find? name) := by
  induction bindings generalizing scope with
  | nil => rfl
  | cons binding rest previous =>
    obtain ⟨bound, value⟩ := binding
    have later : (scope.bindAll ((bound, value) :: rest)).find? name =
        (rest.reverse.lookup name).or ((scope.bind bound value).find? name) :=
      previous (scope.bind bound value)
    rw [later, List.reverse_cons, List.lookup_append, Option.or_assoc]
    by_cases same : name = bound
    · subst same
      simp [find?_bind_self]
    · have missed : (name == bound) = false := by simpa using same
      simp [find?_bind_of_ne scope value same, List.lookup_cons, missed]

@[simp]
theorem parent_bind (scope : Scope) (name : String) (value : Expr) :
    (scope.bind name value).parent = scope.parent := rfl

@[simp]
theorem parent_bindAll (scope : Scope) (bindings : List (String × Expr)) :
    (scope.bindAll bindings).parent = scope.parent := by
  induction bindings generalizing scope with
  | nil => rfl
  | cons binding rest previous => exact previous (scope.bind binding.1 binding.2)

end Scope

/-- All scopes, in order of creation. -/
structure Store where
  scopes : Array Scope := #[]
  deriving DecidableEq, Repr, Inhabited

namespace Store

/-- The number of scopes. -/
def size (store : Store) : Nat :=
  store.scopes.size

/-- The scope with a given number. -/
def scope? (store : Store) (index : Nat) : Option Scope :=
  store.scopes[index]?

/-- Create a scope with the given bindings and parent; its number is the old size of the store. -/
def create (store : Store) (bindings : List (String × Expr)) (parent : Option Nat) : Store :=
  ⟨store.scopes.push (Scope.bindAll { parent } bindings)⟩

/-- Bind a name in the scope with a given number. -/
def bind (store : Store) (index : Nat) (name : String) (value : Expr) : Store :=
  ⟨store.scopes.modify index (·.bind name value)⟩

/-- A store whose only scope is a root scope with the native functions. -/
def initial : Store :=
  create {} Scope.natives none

/-- The parent of a scope. -/
def parent? (store : Store) (index : Nat) : Option Nat :=
  (store.scope? index).bind (·.parent)

/-- A scope and its ancestors, innermost first. -/
def chain (store : Store) (index : Nat) : List Nat :=
  match store.parent? index with
  | none => [index]
  | some parent => if parent < index then index :: store.chain parent else [index]
termination_by index

/-- The value of a name in the nearest scope of a chain that binds it. -/
def lookup? (store : Store) (index : Nat) (name : String) : Option Expr :=
  (store.chain index).findSome? fun ancestor => (store.scope? ancestor).bind (·.find? name)

/-- A name is bound in the chain of a scope. -/
def contains (store : Store) (index : Nat) (name : String) : Bool :=
  (store.lookup? index name).isSome

/-- The number of ancestors of a scope. -/
def depth (store : Store) (index : Nat) : Nat :=
  (store.chain index).length - 1

/-- The names bound in one scope alone, in the order of their code points. -/
def names (store : Store) (index : Nat) : List String :=
  (store.scope? index).elim [] Scope.names

/-- The names bound in one scope alone that are not those of native functions. -/
def userNames (store : Store) (index : Nat) : List String :=
  (store.names index).filter fun name => (Builtin.ofName? name).isNone

/-- The label of a scope: its own names and its depth. -/
def label (store : Store) (index : Nat) : String :=
  "Scope(names=[" ++ ", ".intercalate ((store.names index).map Text.quote) ++ "], depth="
    ++ toString (store.depth index) ++ ")"

/-! ### The numbers of scopes -/

theorem exists_scope? {store : Store} {index : Nat} (inside : index < store.size) :
    ∃ scope, store.scope? index = some scope :=
  ⟨_, Array.getElem?_eq_getElem inside⟩

/-- No scope is behind the end of a store. -/
theorem scope?_eq_none {store : Store} {index : Nat} (outside : store.size ≤ index) :
    store.scope? index = none :=
  Array.getElem?_eq_none_iff.mpr outside

/-! ### What creating a scope and binding a name change -/

@[simp]
theorem size_create (store : Store) (bindings : List (String × Expr)) (parent : Option Nat) :
    (store.create bindings parent).size = store.size + 1 := by
  simp [create, size]

@[simp]
theorem size_bind (store : Store) (index : Nat) (name : String) (value : Expr) :
    (store.bind index name value).size = store.size := by
  simp [bind, size]

/-- The other numbers stand for what they stood for. -/
theorem scope?_create_of_ne (store : Store) (bindings : List (String × Expr))
    (parent : Option Nat) {index : Nat} (other : index ≠ store.size) :
    (store.create bindings parent).scope? index = store.scope? index := by
  have distinct : index ≠ store.scopes.size := other
  simp [create, scope?, Array.getElem?_push, distinct]

/-- The scopes that were there stay as they are. -/
theorem scope?_create_of_lt (store : Store) (bindings : List (String × Expr))
    (parent : Option Nat) {index : Nat} (old : index < store.size) :
    (store.create bindings parent).scope? index = store.scope? index :=
  store.scope?_create_of_ne bindings parent (Nat.ne_of_lt old)

/-- The new scope has the number that was the size of the store. -/
theorem scope?_create_size (store : Store) (bindings : List (String × Expr))
    (parent : Option Nat) :
    (store.create bindings parent).scope? store.size
      = some (Scope.bindAll { parent } bindings) := by
  simp [create, scope?, size]

/-- The scopes other than the one that is written to stay as they are. -/
theorem scope?_bind_of_ne (store : Store) {index other : Nat} (name : String) (value : Expr)
    (distinct : other ≠ index) : (store.bind index name value).scope? other = store.scope? other := by
  simp [bind, scope?, Array.getElem?_modify, Ne.symm distinct]

/-- The scope that is written to has the new binding. -/
theorem scope?_bind_self (store : Store) (index : Nat) (name : String) (value : Expr) :
    (store.bind index name value).scope? index
      = (store.scope? index).map (·.bind name value) := by
  simp [bind, scope?, Array.getElem?_modify]

/-- Binding a name changes no parent. -/
theorem parent?_bind (store : Store) (index other : Nat) (name : String) (value : Expr) :
    (store.bind index name value).parent? other = store.parent? other := by
  by_cases same : other = index
  · subst same
    rw [parent?, scope?_bind_self, parent?]
    cases store.scope? other <;> rfl
  · rw [parent?, scope?_bind_of_ne store name value same, parent?]

end Store

end Lisplet
