import Lisplet.Proofs.Frame

/-!
Scopes and their histories.

Scopes are created with some names, and names are bound in them later on. All these are writes, and
nothing else decides what a name means: a lookup gives the latest write to the nearest scope that was
ever written the name, whether that scope was written to before or after those nearer were created.

* `History`: scopes that are created and names that are bound, one after the other. Only scopes that
  exist by then are made parents or written to.
* `History.ancestors`, `History.writes`: what a history says of the parents of a scope, and of values.
* `History.Wrote`, `History.Latest`: a name was written to a scope, and with which value last.
* `History.find?_store`, `History.chain_store`: the store that a history leads to.
* `History.lookup_agrees_with_history`: what is looked up there.
-/

namespace Lisplet

/-- The parents of the scopes up to a number decide the chain of the scope with that number. -/
theorem Store.chain_congr {first second : Store} {index : Nat}
    (same : ∀ other ≤ index, first.parent? other = second.parent? other) :
    first.chain index = second.chain index := by
  induction index using Nat.strongRecOn with
  | _ index older =>
    rw [chain, chain, same index (Nat.le_refl index)]
    cases second.parent? index with
    | none => rfl
    | some parent =>
      by_cases before : parent < index
      · simp only [before, if_true]
        rw [older parent before fun other above => same other (by omega)]
      · simp only [before, if_false]

/-! ### Histories -/

/-- What happened to some scopes, which are numbered in order of creation. The parent of a new scope
and the scope that a name is bound in are scopes that exist by then. -/
inductive History : Nat → Type
  | start : History 0
  /-- A scope is created with some names, as the child of another one or without a parent. -/
  | create {size : Nat} (earlier : History size) (bindings : List (String × Expr))
      (parent : Option (Fin size)) : History (size + 1)
  /-- A name is bound in a scope. -/
  | bind {size : Nat} (earlier : History size) (scope : Fin size) (name : String) (value : Expr) :
      History size

/-- A name that was given a value in a scope. -/
structure Write where
  scope : Nat
  name : String
  value : Expr

/-- A write of a name to a scope. -/
def Write.Gives (scope : Nat) (name : String) (write : Write) : Prop :=
  write.scope = scope ∧ write.name = name

instance (scope : Nat) (name : String) (write : Write) : Decidable (write.Gives scope name) :=
  inferInstanceAs (Decidable (write.scope = scope ∧ write.name = name))

namespace History

/-- A new root scope, which has the native functions. -/
def root {size : Nat} (earlier : History size) : History (size + 1) :=
  earlier.create Scope.natives none

/-- A new child of a scope, with some names. -/
def child {size : Nat} (earlier : History size) (parent : Fin size)
    (bindings : List (String × Expr)) : History (size + 1) :=
  earlier.create bindings (some parent)

/-- The store that a history leads to. -/
def store : {size : Nat} → History size → Store
  | _, .start => {}
  | _, .create earlier bindings parent => earlier.store.create bindings (parent.map Fin.val)
  | _, .bind earlier scope name value => earlier.store.bind scope name value

/-- The parent of a scope, the parent of that one, and so on. -/
def ancestors : {size : Nat} → History size → Nat → List Nat
  | _, .start, _ => []
  | size + 1, .create earlier _ parent, scope =>
    if scope = size then parent.elim [] fun parent => parent.val :: earlier.ancestors parent
    else earlier.ancestors scope
  | _, .bind earlier _ _ _, scope => earlier.ancestors scope

/-- All writes, the latest first. -/
def writes : {size : Nat} → History size → List Write
  | _, .start => []
  | size + 1, .create earlier bindings _ =>
    (bindings.reverse.map fun binding => ⟨size, binding.1, binding.2⟩) ++ earlier.writes
  | _, .bind earlier scope name value => ⟨scope, name, value⟩ :: earlier.writes

variable {size : Nat}

/-- A name was written to a scope. -/
def Wrote (history : History size) (scope : Nat) (name : String) : Prop :=
  ∃ write ∈ history.writes, write.Gives scope name

/-- The latest write of a name to a scope gave it a value. -/
def Latest (history : History size) (scope : Nat) (name : String) (value : Expr) : Prop :=
  ∃ later earlier, history.writes = later ++ ⟨scope, name, value⟩ :: earlier ∧
    ∀ write ∈ later, ¬ write.Gives scope name

/-- The value that the latest write of a name to a scope gave it. -/
def latest? (history : History size) (scope : Nat) (name : String) : Option Expr :=
  (history.writes.find? fun write => write.Gives scope name).map Write.value

theorem latest?_eq_none_iff (history : History size) (scope : Nat) (name : String) :
    history.latest? scope name = none ↔ ¬ history.Wrote scope name := by
  simp [latest?, Wrote]

theorem latest?_eq_some_iff (history : History size) (scope : Nat) (name : String) (value : Expr) :
    history.latest? scope name = some value ↔ history.Latest scope name value := by
  rw [latest?, Option.map_eq_some_iff]
  constructor
  · rintro ⟨⟨target, bound, given⟩, found, rfl⟩
    obtain ⟨gives, later, earlier, split, others⟩ := List.find?_eq_some_iff_append.mp found
    obtain ⟨rfl, rfl⟩ : target = scope ∧ bound = name := of_decide_eq_true gives
    exact ⟨later, earlier, split, by simpa using others⟩
  · rintro ⟨later, earlier, split, others⟩
    refine ⟨⟨scope, name, value⟩, List.find?_eq_some_iff_append.mpr ?_, rfl⟩
    exact ⟨by simp [Write.Gives], later, earlier, split, by simpa using others⟩

/-! ### The latest write -/

theorem latest?_bind (history : History size) (target : Fin size) (bound : String) (value : Expr)
    (scope : Nat) (name : String) :
    (history.bind target bound value).latest? scope name =
      if scope = target ∧ name = bound then some value else history.latest? scope name := by
  by_cases same : scope = target ∧ name = bound
  · obtain ⟨rfl, rfl⟩ := same
    simp [latest?, writes, Write.Gives]
  · have other : ¬ Write.Gives scope name ⟨target, bound, value⟩ :=
      fun gives => same ⟨gives.1.symm, gives.2.symm⟩
    rw [if_neg same, latest?, writes, List.find?_cons_of_neg (by simpa using other)]
    rfl

/-- The writes of bindings to one scope, latest first, are looked up as these bindings are. -/
theorem find?_writes (scope : Nat) (name : String) (bindings : List (String × Expr)) :
    ((bindings.map fun binding => (⟨scope, binding.1, binding.2⟩ : Write)).find?
      fun write => write.Gives scope name).map Write.value = bindings.lookup name := by
  induction bindings with
  | nil => rfl
  | cons binding rest previous =>
    obtain ⟨bound, value⟩ := binding
    by_cases same : name = bound
    · subst same
      simp [Write.Gives]
    · have missed : (name == bound) = false := by simpa using same
      have other : ¬ Write.Gives scope name ⟨scope, bound, value⟩ :=
        fun gives => same gives.2.symm
      rw [List.map_cons, List.find?_cons_of_neg (by simpa using other), previous,
        List.lookup_cons, missed]

theorem latest?_create_self (history : History size) (bindings : List (String × Expr))
    (parent : Option (Fin size)) (name : String) :
    (history.create bindings parent).latest? size name =
      (bindings.reverse.lookup name).or (history.latest? size name) := by
  rw [latest?, writes, List.find?_append, Option.map_or, find?_writes]
  rfl

theorem latest?_create_of_ne (history : History size) (bindings : List (String × Expr))
    (parent : Option (Fin size)) {scope : Nat} (other : scope ≠ size) (name : String) :
    (history.create bindings parent).latest? scope name = history.latest? scope name := by
  have none : (bindings.reverse.map fun binding => (⟨size, binding.1, binding.2⟩ : Write)).find?
      (fun write => write.Gives scope name) = none := by
    rw [List.find?_eq_none]
    intro write member
    obtain ⟨binding, _, rfl⟩ := List.mem_map.mp member
    simp [Write.Gives, other.symm]
  rw [latest?, writes, List.find?_append, none]
  rfl

/-! ### The store that a history leads to -/

@[simp]
theorem size_store (history : History size) : history.store.size = size := by
  induction history with
  | start => rfl
  | create earlier bindings parent previous => rw [store, Store.size_create, previous]
  | bind earlier scope name value previous => rw [store, Store.size_bind, previous]

/-- **A scope holds the latest writes to it.** By induction on the history. -/
theorem find?_store (history : History size) (scope : Nat) (name : String) :
    (history.store.scope? scope).bind (·.find? name) = history.latest? scope name := by
  induction history with
  | start => simp [store, Store.scope?, latest?, writes]
  | @create size earlier bindings parent previous =>
    rw [store]
    by_cases new : scope = size
    · -- Nothing was written to the number of a scope that did not exist.
      subst new
      have before : earlier.latest? scope name = none := by
        rw [← previous, Store.scope?_eq_none (Nat.le_of_eq earlier.size_store)]
        rfl
      have created := earlier.store.scope?_create_size bindings (parent.map Fin.val)
      rw [size_store] at created
      rw [created, latest?_create_self, before]
      exact Scope.find?_bindAll _ bindings name
    · rw [latest?_create_of_ne earlier bindings parent new, ← previous,
        Store.scope?_create_of_ne _ bindings _ (by rwa [size_store])]
  | bind earlier target bound value previous =>
    rw [store, latest?_bind, ← previous]
    by_cases here : scope = target
    · subst here
      have inside : target < earlier.store.size := by rw [size_store]; exact target.isLt
      obtain ⟨record, held⟩ := Store.exists_scope? inside
      rw [Store.scope?_bind_self, held]
      by_cases same : name = bound
      · subst same
        simpa using record.find?_bind_self name value
      · rw [if_neg (fun both => same both.2)]
        exact record.find?_bind_of_ne value same
    · rw [if_neg (fun both => here both.1), Store.scope?_bind_of_ne _ bound value here]

theorem ancestors_create_self (history : History size) (bindings : List (String × Expr))
    (parent : Option (Fin size)) : (history.create bindings parent).ancestors size =
      parent.elim [] fun parent => parent.val :: history.ancestors parent :=
  if_pos rfl

theorem ancestors_create_of_ne (history : History size) (bindings : List (String × Expr))
    (parent : Option (Fin size)) {scope : Nat} (other : scope ≠ size) :
    (history.create bindings parent).ancestors scope = history.ancestors scope :=
  if_neg other

/-- **The chain of a scope is the scope and its ancestors.** Scopes that are created later have greater
numbers, so they are on no chain that was there before. -/
theorem chain_store (history : History size) {scope : Nat} (inside : scope < size) :
    history.store.chain scope = scope :: history.ancestors scope := by
  induction history generalizing scope with
  | start => exact absurd inside (Nat.not_lt_zero scope)
  | @create size earlier bindings parent previous =>
    have old : ∀ index < size, (earlier.create bindings parent).store.chain index =
        index :: earlier.ancestors index := by
      intro index older
      rw [← previous older, store]
      refine Store.chain_congr fun other above => ?_
      have existing : other < earlier.store.size := by rw [size_store]; omega
      rw [Store.parent?, Store.scope?_create_of_lt _ _ _ existing, Store.parent?]
    by_cases new : scope = size
    · subst new
      have link : (earlier.create bindings parent).store.parent? scope = parent.map Fin.val := by
        have created := earlier.store.scope?_create_size bindings (parent.map Fin.val)
        rw [size_store] at created
        rw [Store.parent?, store, created]
        exact Scope.parent_bindAll _ bindings
      rw [Store.chain, link, ancestors_create_self]
      cases parent with
      | none => rfl
      | some above =>
        simp only [Option.map_some, if_pos above.isLt]
        rw [old above above.isLt]
        rfl
    · rw [ancestors_create_of_ne earlier bindings parent new]
      exact old scope (by omega)
  | bind earlier target bound value previous =>
    rw [ancestors, ← previous inside, store]
    exact Store.chain_congr fun other _ => Store.parent?_bind _ _ other bound value

/-! ### Lookups -/

theorem lookup?_store (history : History size) {scope : Nat} (inside : scope < size)
    (name : String) : history.store.lookup? scope name =
      (scope :: history.ancestors scope).findSome? fun ancestor =>
        history.latest? ancestor name := by
  rw [Store.lookup?, chain_store history inside]
  simp only [find?_store]

/-- A lookup finds the value that the nearest scope of the chain which was written the name was given
last. -/
theorem lookup?_store_eq_some_iff (history : History size) {scope : Nat} (inside : scope < size)
    (name : String) (value : Expr) : history.store.lookup? scope name = some value ↔
      ∃ near nearest far, scope :: history.ancestors scope = near ++ nearest :: far ∧
        (∀ other ∈ near, ¬ history.Wrote other name) ∧ history.Latest nearest name value := by
  rw [lookup?_store history inside, List.findSome?_eq_some_iff]
  simp only [latest?_eq_some_iff, latest?_eq_none_iff]
  constructor
  · rintro ⟨near, nearest, far, split, latest, others⟩
    exact ⟨near, nearest, far, split, others, latest⟩
  · rintro ⟨near, nearest, far, split, others, latest⟩
    exact ⟨near, nearest, far, split, latest, others⟩

/-- A lookup finds nothing if no scope of the chain was written the name. -/
theorem lookup?_store_eq_none_iff (history : History size) {scope : Nat} (inside : scope < size)
    (name : String) : history.store.lookup? scope name = none ↔
      ∀ other ∈ scope :: history.ancestors scope, ¬ history.Wrote other name := by
  rw [lookup?_store history inside, List.findSome?_eq_none_iff]
  simp only [latest?_eq_none_iff]

/-- If a search changes with one item, then the search comes to that item. -/
theorem exists_of_findSome?_ne {α β : Type} {items : List α} {first second : α → Option β}
    (target : α) (same : ∀ item, item ≠ target → first item = second item)
    (differs : items.findSome? first ≠ items.findSome? second) :
    ∃ near far, items = near ++ target :: far ∧ ∀ item ∈ near, second item = none := by
  induction items with
  | nil => exact absurd rfl differs
  | cons item rest previous =>
    by_cases here : item = target
    · subst here
      exact ⟨[], rest, rfl, by simp⟩
    · rw [List.findSome?_cons, List.findSome?_cons, same item here] at differs
      cases found : second item with
      | some value => simp [found] at differs
      | none =>
        obtain ⟨near, far, rfl, missed⟩ := previous (by simpa [found] using differs)
        exact ⟨item :: near, far, rfl, List.forall_mem_cons.mpr ⟨found, missed⟩⟩

/-- A binding changes what is looked up from a scope only if it is one of the same name, in a scope of
the chain that no nearer one hides. -/
theorem lookup?_bind_ne (history : History size) (target : Fin size) (bound : String) (value : Expr)
    {scope : Nat} (inside : scope < size) (name : String)
    (changed : (history.bind target bound value).store.lookup? scope name ≠
      history.store.lookup? scope name) :
    name = bound ∧ ∃ near far, scope :: history.ancestors scope = near ++ target.val :: far ∧
      ∀ nearer ∈ near, ¬ history.Wrote nearer bound := by
  rw [lookup?_store _ inside, lookup?_store _ inside, ancestors] at changed
  by_cases same : name = bound
  · subst same
    obtain ⟨near, far, split, missed⟩ := exists_of_findSome?_ne target.val
      (fun other different => by rw [latest?_bind, if_neg (fun both => different both.1)]) changed
    refine ⟨rfl, near, far, split, fun nearer member => ?_⟩
    exact (latest?_eq_none_iff history nearer name).mp (missed nearer member)
  · refine absurd ?_ changed
    simp only [latest?_bind, same, and_false, if_false]

/-- **Scopes agree with their history.** From any scope, a lookup of a name gives the value of the latest
write of that name to the nearest scope of the chain that was ever written it; it fails, and says which
name was not found, exactly if no scope of the chain was ever written it. The names that a scope contains
are those that are found, and its depth is the number of its ancestors. A binding changes what is looked
up from a scope only if it is one of the same name, in a scope of the chain, and no nearer scope was
written the name. -/
theorem lookup_agrees_with_history (history : History size) (scope : Fin size) :
    let world : World := { store := history.store }
    let chain := scope.val :: history.ancestors scope
    (∀ name value, (Action.lookup scope name).run world = (.ok value, world) ↔
      ∃ near nearest far, chain = near ++ nearest :: far ∧
        (∀ other ∈ near, ¬ history.Wrote other name) ∧ history.Latest nearest name value) ∧
    (∀ name, (Action.lookup scope name).run world =
        (.error (.error { kind := .notFound, args := [.text name] }), world) ↔
      ∀ other ∈ chain, ¬ history.Wrote other name) ∧
    (∀ name, history.store.contains scope name = true ↔
      ∃ value, (Action.lookup scope name).run world = (.ok value, world)) ∧
    history.store.depth scope = (history.ancestors scope).length ∧
    ∀ (target : Fin size) (bound : String) (value : Expr) (name : String),
      let later : World := { store := (history.bind target bound value).store }
      ((Action.lookup scope name).run later).1 ≠ ((Action.lookup scope name).run world).1 →
        name = bound ∧ ∃ near far, chain = near ++ target.val :: far ∧
          ∀ nearer ∈ near, ¬ history.Wrote nearer bound := by
  intro world chain
  have inside : scope.val < size := scope.isLt
  have found : ∀ name value, (Action.lookup scope name).run world = (.ok value, world) ↔
      history.store.lookup? scope name = some value := fun name value =>
    Action.run_lookup_eq_ok_iff
  refine ⟨fun name value => ?_, fun name => ?_, fun name => ?_, ?_, ?_⟩
  · rw [found, lookup?_store_eq_some_iff history inside]
  · rw [Action.run_lookup_eq_notFound_iff, lookup?_store_eq_none_iff history inside]
  · simp only [found, Store.contains, Option.isSome_iff_exists]
  · rw [Store.depth, chain_store history inside]
    rfl
  · intro target bound value name later changed
    refine lookup?_bind_ne history target bound value inside name fun same => changed ?_
    rw [Action.run_lookup, Action.run_lookup, same]
    cases history.store.lookup? scope name <;> rfl

/-- A name that the root was written after its grandchild was created, and one that the scope between
them hides. -/
theorem lookup_agrees_with_history_late_write :
    let family := (start.root.child 0 [("x", .integer 1)]).child 1 []
    let history := (family.bind 0 "x" (.integer 5)).bind 0 "y" (.integer 7)
    let world : World := { store := history.store }
    let later : World := { store := (history.bind 1 "x" (.integer 9)).store }
    (Action.lookup 2 "y").run world = (.ok (.integer 7), world) ∧
      (∃ near nearest far, [2, 1, 0] = near ++ nearest :: far ∧
        (∀ other ∈ near, ¬ history.Wrote other "y") ∧ history.Latest nearest "y" (.integer 7)) ∧
      ((Action.lookup 2 "x").run later).1 ≠ ((Action.lookup 2 "x").run world).1 ∧
      ∃ near far, [2, 1, 0] = near ++ 1 :: far ∧ ∀ nearer ∈ near, ¬ history.Wrote nearer "x" := by
  intro family history world later
  have found : (Action.lookup 2 "y").run world = (.ok (.integer 7), world) :=
    Action.run_lookup_eq_ok_iff.mpr (by decide +kernel)
  have changed : ((Action.lookup 2 "x").run later).1 ≠ ((Action.lookup 2 "x").run world).1 := by
    decide +kernel
  obtain ⟨lookups, _, _, _, changes⟩ := lookup_agrees_with_history history 2
  exact ⟨found, (lookups "y" (.integer 7)).mp found, changed,
    (changes 1 "x" (.integer 9) "x" changed).2⟩

end History

end Lisplet
