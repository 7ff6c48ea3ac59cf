import Lisplet.Expr.Basic

/-!
How deep the lists of an expression go.

Reading, evaluating and printing an expression all go down into its lists, and each of them can be short of
room there.

* `Expr.nesting`: the number of lists inside one another.
-/

namespace Lisplet.Expr

mutual

/-- How deep the lists of an expression are nested; none at all is zero. -/
def nesting : Expr → Nat
  | .list items => nestingAll items + 1
  | _ => 0

/-- How deep the lists of several expressions are nested. -/
def nestingAll : List Expr → Nat
  | [] => 0
  | first :: rest => max (nesting first) (nestingAll rest)

end

theorem nestingAll_le_iff {items : List Expr} {levels : Nat} :
    nestingAll items ≤ levels ↔ ∀ item ∈ items, item.nesting ≤ levels := by
  induction items with
  | nil => simp [nestingAll]
  | cons first rest previous => rw [nestingAll, Nat.max_le, previous, List.forall_mem_cons]

end Lisplet.Expr
