import Lisplet.Numeric.FloatText

/-!
Expressions of the language.

An expression is both a form that was read and a value of the language. Before evaluation a list is an
application, after it an inert value. A closure refers to the scope it was made in by the number of
that scope in the store.

* `Builtin`: the native functions.
* `Expr`: expressions.
* `Expr.ofInt?`, `Expr.ofDouble?`: the numbers that fit in 32 bits.
-/

namespace Lisplet

/-- The native functions. -/
inductive Builtin where
  | add
  | subtract
  | multiply
  | identity
  | text
  | list
  | define
  | function
  deriving DecidableEq, Repr

/-- The name under which a native function is bound. -/
def Builtin.name : Builtin → String
  | .add => "+"
  | .subtract => "-"
  | .multiply => "*"
  | .identity => "identity"
  | .text => "str"
  | .list => "list"
  | .define => "def"
  | .function => "fn"

/-- All native functions. -/
def Builtin.all : List Builtin :=
  [.add, .subtract, .multiply, .identity, .text, .list, .define, .function]

/-- The native function with a given name. -/
def Builtin.ofName? (name : String) : Option Builtin :=
  Builtin.all.find? (·.name == name)

/-- Expressions. -/
inductive Expr where
  | identifier (name : String)
  | string (text : String)
  | integer (value : Int)
  | float (value : Single)
  | list (items : List Expr)
  | native (builtin : Builtin)
  | closure (params : List String) (body : Expr) (scope : Nat) (name : String)
  deriving Repr, Inhabited

namespace Expr

/-- The name of a closure that has not been given one. -/
def anonymous : String := "fn"

/-- The integers that fit in 32 bits. -/
def fits (value : Int) : Bool :=
  -2147483648 ≤ value && value ≤ 2147483647

/-- An integer expression, if the value fits in 32 bits. -/
def ofInt? (value : Int) : Option Expr :=
  if fits value then some (.integer value) else none

/-- The float expression nearest to a 64-bit number, if there is a finite one. -/
def ofDouble? (number : Double) : Option Expr :=
  (Double.toSingle? number).map .float

/-- An expression that can be called. -/
def isFunction : Expr → Bool
  | .native _ => true
  | .closure .. => true
  | _ => false

/-- The item of a list at an index; a negative index counts back from the end. -/
def item? (items : List Expr) (index : Int) : Option Expr :=
  let position := if index < 0 then index + items.length else index
  if position < 0 then none else items[position.toNat]?

end Expr

end Lisplet
