import Lisplet.Proofs.Values
import Mathlib.Data.List.Forall2

/-!
Renaming the scopes of closures.

The number of the scope that a closure was made in can be seen neither by comparing nor by printing, so
an expression that differs from another in these numbers alone agrees with it. The values of a store
know its scopes only, and a renaming that leaves those alone leaves the values alone.

* `Expr.rename`: an expression with its scopes renamed.
* `Expr.Comparable`: an expression that is equal to itself, as all forms and all values are.
* `Expr.Agrees`, `Arg.Agrees`, `Fault.Agrees`: what a program cannot tell apart.
* `Expr.Moved`: an expression and the same one renamed, which agree (`Expr.Moved.agrees`).
-/

namespace Lisplet

/-! ### Renaming -/

namespace Expr

mutual

/-- The expression with `move scope` for the scope of every closure in it. -/
def rename (move : Nat → Nat) : Expr → Expr
  | .list items => .list (renameAll move items)
  | .closure params body scope name => .closure params (rename move body) (move scope) name
  | .identifier name => .identifier name
  | .string text => .string text
  | .integer value => .integer value
  | .float value => .float value
  | .native builtin => .native builtin

/-- Several expressions, all of them renamed. -/
def renameAll (move : Nat → Nat) : List Expr → List Expr
  | [] => []
  | first :: rest => rename move first :: renameAll move rest

end

variable {move : Nat → Nat}

theorem renameAll_eq_map (items : List Expr) : renameAll move items = items.map (rename move) := by
  induction items with
  | nil => rfl
  | cons first rest previous => rw [renameAll, previous, List.map_cons]

theorem isFunction_rename (expr : Expr) : (expr.rename move).isFunction = expr.isFunction := by
  cases expr <;> rfl

mutual

/-- Scopes are not printed. -/
theorem print_rename (expr : Expr) : (expr.rename move).print = expr.print := by
  cases expr with
  | list items => rw [rename, print, print, printAll_renameAll items]
  | _ => rfl

theorem printAll_renameAll (items : List Expr) :
    printAll (renameAll move items) = printAll items := by
  cases items with
  | nil => rfl
  | cons first rest =>
    rw [renameAll, printAll, printAll, print_rename first, printAll_renameAll rest]

end

mutual

/-- Nor do they take room on the stack. -/
theorem printWithin_rename (room : Nat) (expr : Expr) :
    (expr.rename move).printWithin room = expr.printWithin room := by
  cases expr with
  | list items =>
    cases room with
    | zero => rfl
    | succ room =>
      rw [rename, printWithin, printWithin, printAllWithin_renameAll room items]
  | _ => cases room <;> rfl

theorem printAllWithin_renameAll (room : Nat) (items : List Expr) :
    printAllWithin room (renameAll move items) = printAllWithin room items := by
  cases items with
  | nil => rfl
  | cons first rest =>
    rw [renameAll, printAllWithin, printAllWithin, printWithin_rename room first,
      printAllWithin_renameAll room rest]

end

theorem plain_rename (room : Nat) (expr : Expr) :
    (expr.rename move).plain room = expr.plain room := by
  cases expr with
  | string text => rfl
  | list items => exact printWithin_rename room (.list items)
  | closure params body scope name =>
    exact printWithin_rename room (.closure params body scope name)
  | _ => rfl

mutual

/-- Scopes are not compared. -/
theorem same_rename (first second : Expr) : first.same (second.rename move) = first.same second := by
  cases second with
  | list items =>
    cases first with
    | list others =>
      rw [rename, same, same]
      exact sameAll_renameAll others items
    | _ => rfl
  | closure params body scope name =>
    cases first with
    | closure others other home label => rw [rename, same, same, same_rename other body]
    | _ => rfl
  | _ => rfl

theorem sameAll_renameAll (firsts seconds : List Expr) :
    sameAll firsts (renameAll move seconds) = sameAll firsts seconds := by
  cases seconds with
  | nil => rfl
  | cons second seconds =>
    cases firsts with
    | nil => rfl
    | cons first firsts =>
      rw [renameAll, sameAll, sameAll, same_rename first second, sameAll_renameAll firsts seconds]

end

mutual

/-- An expression whose leaves stay the same does so. -/
theorem rename_of_leaves (expr : Expr) (kept : ∀ leaf ∈ expr.leaves, leaf.rename move = leaf) :
    expr.rename move = expr := by
  cases expr with
  | list items => rw [rename, renameAll_of_leaves items kept]
  | _ => exact kept _ (List.mem_singleton_self _)

theorem renameAll_of_leaves (items : List Expr)
    (kept : ∀ leaf ∈ leavesAll items, leaf.rename move = leaf) : renameAll move items = items := by
  cases items with
  | nil => rfl
  | cons first rest =>
    rw [leavesAll, List.forall_mem_append] at kept
    rw [renameAll, rename_of_leaves first kept.1, renameAll_of_leaves rest kept.2]

end

/-- A form holds no closure. -/
theorem IsForm.rename_eq {expr : Expr} (form : expr.IsForm) : expr.rename move = expr := by
  refine rename_of_leaves expr fun leaf member => ?_
  have literal := form leaf member
  cases leaf with
  | list items => exact literal.elim
  | closure params body scope name => exact literal.elim
  | _ => rfl

/-- The values of a store stay the same if its scopes keep their numbers. -/
theorem IsValue.rename_eq {size : Nat} {expr : Expr} (value : expr.IsValue size)
    (kept : ∀ scope < size, move scope = scope) : expr.rename move = expr := by
  refine rename_of_leaves expr fun leaf member => ?_
  have fits := value leaf member
  cases leaf with
  | list items => exact fits.elim
  | closure params body scope name =>
    have formed : ClosureFormed size params body scope := fits
    rw [rename, formed.form.rename_eq, kept scope formed.captured]
  | _ => rfl

/-! ### Comparing an expression with itself -/

/-- An expression is equal to itself as a value. What is not a number would not be. -/
def Comparable (expr : Expr) : Prop :=
  expr.same expr = true

theorem comparable_list_iff {items : List Expr} :
    Comparable (.list items) ↔ ∀ item ∈ items, item.Comparable := by
  have all : ∀ items : List Expr,
      sameAll items items = true ↔ ∀ item ∈ items, item.Comparable := by
    intro items
    induction items with
    | nil => simp [sameAll]
    | cons first rest previous =>
      rw [sameAll, Bool.and_eq_true, previous, List.forall_mem_cons]
      rfl
  rw [Comparable, same]
  exact all items

mutual

theorem comparable_of_leaves (expr : Expr) (each : ∀ leaf ∈ expr.leaves, leaf.Comparable) :
    expr.Comparable := by
  cases expr with
  | list items => exact comparable_list_iff.mpr (comparableAll_of_leaves items each)
  | _ => exact each _ (List.mem_singleton_self _)

theorem comparableAll_of_leaves (items : List Expr)
    (each : ∀ leaf ∈ leavesAll items, leaf.Comparable) : ∀ item ∈ items, item.Comparable := by
  cases items with
  | nil => simp
  | cons first rest =>
    rw [leavesAll, List.forall_mem_append] at each
    rw [List.forall_mem_cons]
    exact ⟨comparable_of_leaves first each.1, comparableAll_of_leaves rest each.2⟩

end

theorem comparable_float {value : Single} (unsigned : IsUnsigned value) :
    Comparable (.float value) := by
  have finite : value.code < Format.single.infinity := by
    simpa only [Floating.isFinite, decide_eq_true_eq] using unsigned.1
  have number : value.isNaN = false := by
    simp only [Floating.isNaN, decide_eq_false_iff_not]
    omega
  simp [Comparable, same, Floating.sameValue, number]

theorem IsForm.comparable {expr : Expr} (form : expr.IsForm) : expr.Comparable := by
  refine comparable_of_leaves expr fun leaf member => ?_
  have literal := form leaf member
  cases leaf with
  | float value => exact comparable_float literal
  | list items => exact literal.elim
  | native builtin => exact literal.elim
  | closure params body scope name => exact literal.elim
  | _ => simp [Comparable, same]

theorem IsValue.comparable {size : Nat} {expr : Expr} (value : expr.IsValue size) :
    expr.Comparable := by
  refine comparable_of_leaves expr fun leaf member => ?_
  have fits := value leaf member
  cases leaf with
  | float value => exact comparable_float fits
  | list items => exact fits.elim
  | closure params body scope name =>
    have formed : ClosureFormed size params body scope := fits
    have inside : body.same body = true := formed.form.comparable
    simp [Comparable, same, inside]
  | _ => simp [Comparable, same]

end Expr

/-! ### Agreement -/

/-- Two expressions that a program cannot tell apart: they are equal as values, and they have the same
printed form, unless neither can be printed. -/
structure Expr.Agrees (first second : Expr) : Prop where
  same : first.same second = true
  print : first.print = second.print

/-- Two arguments of errors that agree. -/
inductive Arg.Agrees : Arg → Arg → Prop
  | text (content : String) : Agrees (.text content) (.text content)
  | number (value : Int) : Agrees (.number value) (.number value)
  | expr {first second : Expr} (agrees : first.Agrees second) : Agrees (.expr first) (.expr second)

/-- Two faults that agree: errors that are equal but for their arguments, which agree, or equal
breakdowns, or a stack that is used up. -/
inductive Fault.Agrees : Fault → Fault → Prop
  | error {first second : Error} (args : List.Forall₂ Arg.Agrees first.args second.args)
      (rest : second = { first with args := second.args }) : Agrees (.error first) (.error second)
  | breakdown (breakdown : Breakdown) : Agrees (.breakdown breakdown) (.breakdown breakdown)
  | exhausted : Agrees .exhausted .exhausted

/-- The error of a flaw agrees with itself, since it has no expression for an argument. -/
theorem Flaw.agrees_toError (flaw : Flaw) (source : String) :
    (Fault.error (flaw.toError source)).Agrees (.error (flaw.toError source)) := by
  refine .error (List.forall₂_same.mpr fun arg member => ?_) rfl
  change arg ∈ flaw.cause.args at member
  cases arg with
  | text content => exact .text content
  | number value => exact .number value
  | expr value =>
    cases cause : flaw.cause <;> rw [cause] at member <;> simp [FlawCause.args] at member

/-- Two outcomes that agree: values that `holds` relates, or faults that agree. -/
inductive OutcomesAgree {α : Type} (holds : α → α → Prop) : Except Fault α → Except Fault α → Prop
  | ok {first second : α} (related : holds first second) :
      OutcomesAgree holds (.ok first) (.ok second)
  | error {first second : Fault} (agree : first.Agrees second) :
      OutcomesAgree holds (.error first) (.error second)

theorem OutcomesAgree.imp {α : Type} {holds weaker : α → α → Prop} {first second : Except Fault α}
    (agree : OutcomesAgree holds first second)
    (weaken : ∀ one other, holds one other → weaker one other) :
    OutcomesAgree weaker first second := by
  cases agree with
  | ok related => exact .ok (weaken _ _ related)
  | error agree => exact .error agree

/-! ### Expressions that were moved -/

namespace Expr

/-- The second expression is the first one renamed, and the first one can be compared. -/
structure Moved (move : Nat → Nat) (first second : Expr) : Prop where
  renamed : second = first.rename move
  comparable : first.Comparable

variable {move : Nat → Nat} {first second : Expr}

theorem moved_rename (comparable : first.Comparable) : Moved move first (first.rename move) :=
  ⟨rfl, comparable⟩

theorem moved_string (content : String) : Moved move (.string content) (.string content) :=
  ⟨rfl, by simp [Comparable, same]⟩

theorem moved_integer (value : Int) : Moved move (.integer value) (.integer value) :=
  ⟨rfl, by simp [Comparable, same]⟩

/-- A form is moved to itself. -/
theorem IsForm.moved (form : first.IsForm) : Moved move first first :=
  ⟨form.rename_eq.symm, form.comparable⟩

/-- A value is moved to itself if the scopes of its store keep their numbers. -/
theorem IsValue.moved {size : Nat} (value : first.IsValue size)
    (kept : ∀ scope < size, move scope = scope) : Moved move first first :=
  ⟨(value.rename_eq kept).symm, value.comparable⟩

theorem Moved.agrees (moved : Moved move first second) : first.Agrees second := by
  obtain ⟨rfl, comparable⟩ := moved
  exact ⟨(same_rename first first).trans comparable, (print_rename first).symm⟩

theorem Moved.isFunction_eq (moved : Moved move first second) :
    second.isFunction = first.isFunction := by
  rw [moved.renamed, isFunction_rename]

theorem Moved.plain_eq (moved : Moved move first second) (room : Nat) :
    second.plain room = first.plain room := by
  rw [moved.renamed, plain_rename]

theorem Moved.print_eq (moved : Moved move first second) : second.print = first.print := by
  rw [moved.renamed, print_rename]

/-- Lists are moved by moving their items. -/
theorem moved_list {items others : List Expr} (all : List.Forall₂ (Moved move) items others) :
    Moved move (.list items) (.list others) := by
  induction all with
  | nil => exact moved_rename (comparable_list_iff.mpr (by simp))
  | @cons item other items others moved _ previous =>
    have inside := comparable_list_iff.mp previous.comparable
    refine ⟨?_, comparable_list_iff.mpr (List.forall_mem_cons.mpr ⟨moved.comparable, inside⟩)⟩
    have rest : others = renameAll move items := by
      simpa only [rename, list.injEq] using previous.renamed
    rw [rename, renameAll, ← moved.renamed, ← rest]

/-- A list that was moved is a list of the moved items. -/
theorem Moved.items {items : List Expr} (moved : Moved move (.list items) second) :
    ∃ others, second = .list others ∧ List.Forall₂ (Moved move) items others := by
  refine ⟨items.map (rename move), ?_, ?_⟩
  · rw [moved.renamed, rename, renameAll_eq_map]
  · refine List.forall₂_map_right_iff.mpr (List.forall₂_same.mpr fun item member => ?_)
    exact moved_rename (comparable_list_iff.mp moved.comparable item member)

/-- A closure that was moved is over another scope, and its body was moved. -/
theorem Moved.body {params : List String} {body : Expr} {scope : Nat} {name : String}
    (moved : Moved move (.closure params body scope name) second) :
    ∃ other, second = .closure params other (move scope) name ∧ Moved move body other := by
  refine ⟨body.rename move, moved.renamed, moved_rename ?_⟩
  have both := moved.comparable
  rw [Comparable, same, Bool.and_eq_true] at both
  exact both.2

theorem moved_closure {body other : Expr} (moved : Moved move body other) (params : List String)
    (scope : Nat) (name : String) :
    Moved move (.closure params body scope name) (.closure params other (move scope) name) := by
  refine ⟨by rw [rename, moved.renamed], ?_⟩
  have inside : body.same body = true := moved.comparable
  simp [Comparable, same, inside]

end Expr

end Lisplet
