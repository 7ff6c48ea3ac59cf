import Lisplet.Expr.Equality
import Lisplet.Form.Numeral
import Lisplet.Token.Basic

/-!
Lists under construction.

A `Nest` holds the forms read so far, together with the lists that are still open. Tokens are fed to it
one after the other; each either extends the innermost sequence, opens a list, closes one, or has a
flaw. The depth of a nest is the number of open lists, and a token that would take it beyond the limit
is flawed.
-/

namespace Lisplet

/-- The items of the innermost sequence, and those of the sequences around it, innermost first. Every
sequence has its last item first. The outermost sequence is that of the complete forms. -/
structure Nest where
  items : List Expr := []
  outer : List (List Expr) := []
  deriving DecidableEq, Repr

namespace Nest

/-- The number of open lists. -/
def depth (nest : Nest) : Nat :=
  nest.outer.length

/-- Add an item to the innermost sequence. -/
def push (nest : Nest) (item : Expr) : Nest :=
  { nest with items := item :: nest.items }

/-- Open a list. -/
def openList (nest : Nest) : Nest :=
  ⟨[], nest.items :: nest.outer⟩

/-- Close the innermost list, if one is open. -/
def closeList? (nest : Nest) : Option Nest :=
  match nest.outer with
  | [] => none
  | items :: outer => some ⟨.list nest.items.reverse :: items, outer⟩

/-- The complete forms, in order. -/
def forms (nest : Nest) : List Expr :=
  (nest.outer.getLast?.getD nest.items).reverse

/-! ### The depth after each change -/

@[simp]
theorem depth_push (nest : Nest) (item : Expr) : (nest.push item).depth = nest.depth := rfl

@[simp]
theorem depth_openList (nest : Nest) : nest.openList.depth = nest.depth + 1 := rfl

/-- Closing a list undoes one opening. -/
theorem depth_of_closeList? {nest closed : Nest} (closes : nest.closeList? = some closed) :
    nest.depth = closed.depth + 1 := by
  obtain ⟨items, outer⟩ := nest
  cases outer with
  | nil => simp [closeList?] at closes
  | cons first rest =>
    simp only [closeList?, Option.some.injEq] at closes
    subst closes
    rfl

/-- A list can be closed unless none is open. -/
theorem closeList?_eq_none_iff (nest : Nest) : nest.closeList? = none ↔ nest.depth = 0 := by
  obtain ⟨items, outer⟩ := nest
  cases outer <;> simp [closeList?, depth]

/-! ### Taking in tokens -/

/-- Take in one token. -/
def feed (limit : Int) (nest : Nest) (token : Token) : Except Flaw Nest :=
  match token.shape with
  | .identifier => .ok (nest.push (.identifier token.text))
  | .string => .ok (nest.push (.string token.text))
  | .number =>
    match numeral? token.text with
    | some expr => .ok (nest.push expr)
    | none => .error ⟨.malformedNumber token.text, token.start, token.stop⟩
  | .leftParen =>
    if limit < nest.depth + 1 then .error ⟨.tooDeep limit, token.start, token.stop⟩
    else .ok nest.openList
  | .rightParen =>
    match nest.closeList? with
    | some closed => .ok closed
    | none => .error ⟨.unbalanced, token.start, token.stop⟩

/-- Take in tokens up to the first flaw, which is given with the token that has it. -/
def feedAll (limit : Int) (nest : Nest) : List Token → Nest × Option (Flaw × Token)
  | [] => (nest, none)
  | token :: tokens =>
    match nest.feed limit token with
    | .ok fed => fed.feedAll limit tokens
    | .error flaw => (nest, some (flaw, token))

/-- How far tokens take a nest towards its first complete form. -/
inductive Progress where
  /-- A form was completed by the token. -/
  | complete (form : Expr) (token : Token)
  /-- The token has a flaw. -/
  | flawed (flaw : Flaw) (token : Token)
  /-- The tokens were used up first. -/
  | unfinished
  deriving DecidableEq, Repr

/-- Take in tokens until a form is complete. -/
def feedOne (limit : Int) (nest : Nest) : List Token → Progress
  | [] => .unfinished
  | token :: tokens =>
    match nest.feed limit token with
    | .error flaw => .flawed flaw token
    | .ok fed =>
      match fed.outer, fed.items with
      | [], form :: _ => .complete form token
      | _, _ => fed.feedOne limit tokens

end Nest

end Lisplet
