import Lisplet.Expr.Basic

/-!
Two equalities of expressions.

* `Expr.same`: equality of values, as programs see it. Closures agree if their parameters and bodies
  do, and floats are compared as numbers, so this is not reflexive.
* `Expr.identical`: equality of terms, which decides `=` (`Expr.identical_iff`).
-/

namespace Lisplet.Expr

mutual

/-- Equality of values. Two closures agree if their parameters and bodies do, whatever their names and
scopes; floats are compared as numbers. -/
def same : Expr → Expr → Bool
  | .identifier first, .identifier second => first == second
  | .string first, .string second => first == second
  | .integer first, .integer second => first == second
  | .float first, .float second => first.sameValue second
  | .list first, .list second => sameAll first second
  | .native first, .native second => first == second
  | .closure params body _ _, .closure params' body' _ _ => params == params' && same body body'
  | _, _ => false

/-- Equality of the items of two lists as values. -/
def sameAll : List Expr → List Expr → Bool
  | [], [] => true
  | first :: firsts, second :: seconds => same first second && sameAll firsts seconds
  | _, _ => false

end

mutual

/-- Equality of terms. -/
def identical : Expr → Expr → Bool
  | .identifier first, .identifier second => first == second
  | .string first, .string second => first == second
  | .integer first, .integer second => first == second
  | .float first, .float second => first == second
  | .list first, .list second => identicalAll first second
  | .native first, .native second => first == second
  | .closure params body scope name, .closure params' body' scope' name' =>
    params == params' && identical body body' && scope == scope' && name == name'
  | _, _ => false

/-- Equality of the items of two lists as terms. -/
def identicalAll : List Expr → List Expr → Bool
  | [], [] => true
  | first :: firsts, second :: seconds => identical first second && identicalAll firsts seconds
  | _, _ => false

end

mutual

/-- The equality of terms decides `=`. -/
theorem identical_iff (first second : Expr) : identical first second = true ↔ first = second := by
  cases first with
  | list items =>
    cases second with
    | list items' => simpa [identical] using identicalAll_iff items items'
    | _ => simp [identical]
  | closure params body scope name =>
    cases second with
    | closure params' body' scope' name' =>
      have inner := identical_iff body body'
      simp only [identical, Bool.and_eq_true, beq_iff_eq, inner, closure.injEq]
      grind
    | _ => simp [identical]
  | _ => cases second <;> simp [identical]

/-- The equality of lists of terms decides `=`. -/
theorem identicalAll_iff (firsts seconds : List Expr) :
    identicalAll firsts seconds = true ↔ firsts = seconds := by
  cases firsts with
  | nil => cases seconds <;> simp [identicalAll]
  | cons first firsts =>
    cases seconds with
    | nil => simp [identicalAll]
    | cons second seconds =>
      simp [identicalAll, identical_iff first second, identicalAll_iff firsts seconds]

end

instance instDecidableEqExpr : DecidableEq Expr := fun first second =>
  decidable_of_iff _ (identical_iff first second)

end Lisplet.Expr
