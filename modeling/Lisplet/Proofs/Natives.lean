import Lisplet.Eval.Native
import Mathlib.Data.List.Basic

/-!
The rules of the native functions.

What a native function does with its arguments is described once by rules: it fails without touching
anything, it gives a value, or it binds a name in the scope it is called in. None of this depends on
the scopes that exist.

* `Builtin.Calls`: the rules, one for each way in which a call can go.
* `Builtin.calls`: a native function follows these rules.
-/

namespace Lisplet.Builtin

/-- The rules of calling a native function in a scope, where `room` levels of the stack are left. -/
inductive Calls (room scope : Nat) : Builtin → List Expr → Action Expr → Prop
  | wrongCount {builtin : Builtin} {args : List Expr} {count : Nat}
      (arity : builtin.arity? = some count) (wrong : args.length ≠ count) :
      Calls room scope builtin args (Action.fail .arityMismatch
        [.text builtin.name, .number count, .number args.length])
  | wrongType {builtin : Builtin} {args : List Expr} {got : Expr} (expected : String)
      (given : got ∈ args) : Calls room scope builtin args (builtin.mismatch expected got)
  | arithmetic {builtin : Builtin} {left right : Int}
      (fits : Expr.fits (builtin.operation left right) = true) :
      Calls room scope builtin [.integer left, .integer right]
        (pure (.integer (builtin.operation left right)))
  | overflow {builtin : Builtin} {left right : Int}
      (exceeds : Expr.fits (builtin.operation left right) = false) :
      Calls room scope builtin [.integer left, .integer right]
        (Action.fail .integerOverflow [.text builtin.name])
  | identity (value : Expr) : Calls room scope .identity [value] (pure value)
  | text {args : List Expr} (content : String) : Calls room scope .text args (pure (.string content))
  | unprintable {args : List Expr} {arg : Expr} {fault : Fault} (given : arg ∈ args)
      (stuck : arg.plain room = .error fault) : Calls room scope .text args (throw fault)
  | list (args : List Expr) : Calls room scope .list args (pure (.list args))
  | define (name : String) (value : Expr) :
      Calls room scope .define [.string name, value]
        (Action.bindName scope name (named name value) >>= fun _ => pure (named name value))
  | flawedBody {params body : String} {flaw : Flaw}
      (read : ((Cursor.ofText body).readForm defaultLimit).1 = .error flaw) :
      Calls room scope .function [.string params, .string body] (throw (.error (flaw.toError body)))
  | closure {params body : String} {names : List String} {form : Expr} {after : Cursor}
      (read : (Cursor.ofText body).readForm defaultLimit = (.ok form, after))
      (single : after.atEnd = true) (distinct : params? params = some names) :
      Calls room scope .function [.string params, .string body]
        (pure (.closure names form scope Expr.anonymous))

variable {room scope : Nat}

theorem calls_arithmetic (builtin : Builtin) (first second : Expr) :
    Calls room scope builtin [first, second] (builtin.arithmetic first second) := by
  cases first with
  | integer left =>
    cases second with
    | integer right =>
      simp only [Builtin.arithmetic, expectInteger, pure_bind, Expr.ofInt?]
      cases fits : Expr.fits (builtin.operation left right) with
      | true => exact .arithmetic fits
      | false => exact .overflow fits
    | _ => exact .wrongType "integer operands" (by simp)
  | _ => exact .wrongType "integer operands" (by simp)

theorem joinTexts_eq (room : Nat) (args : List Expr) :
    (∃ content, joinTexts room args = pure content) ∨
      ∃ arg ∈ args, ∃ fault, arg.plain room = .error fault ∧
        joinTexts room args = throw fault := by
  induction args with
  | nil => exact .inl ⟨"", rfl⟩
  | cons first rest previous =>
    unfold joinTexts
    cases printed : first.plain room with
    | error fault => exact .inr ⟨first, List.mem_cons_self, fault, printed, rfl⟩
    | ok content =>
      rcases previous with ⟨more, joined⟩ | ⟨arg, member, fault, stuck, joined⟩
      · exact .inl ⟨content ++ more, by rw [joined]; rfl⟩
      · exact .inr ⟨arg, List.mem_cons_of_mem _ member, fault, stuck, by rw [joined]; rfl⟩

theorem calls_text (args : List Expr) :
    Calls room scope .text args (joinTexts room args >>= fun content => pure (.string content)) := by
  rcases joinTexts_eq room args with ⟨content, joined⟩ | ⟨arg, member, fault, stuck, joined⟩
  · rw [joined]
    exact .text content
  · rw [joined]
    exact .unprintable member stuck

theorem calls_define (name value : Expr) :
    Calls room scope .define [name, value] (defineName scope name value) := by
  cases name with
  | string content => exact .define content value
  | _ => exact .wrongType "a string name" (by simp)

theorem calls_function (params body : Expr) :
    Calls room scope .function [params, body] (makeClosure scope params body) := by
  cases params with
  | string names =>
    cases body with
    | string source =>
      simp only [makeClosure, expectString, pure_bind, readBody, paramNames]
      rcases read : (Cursor.ofText source).readForm defaultLimit with ⟨flaw | form, after⟩
      · exact .flawedBody (congrArg Prod.fst read)
      · cases single : after.atEnd with
        | false =>
          simp only [Bool.false_eq_true, if_false]
          show Calls room scope .function _
            (Builtin.function.mismatch "a body of exactly one form" (.string source))
          exact .wrongType _ (by simp)
        | true =>
          simp only [if_true, pure_bind]
          cases distinct : params? names with
          | some list => exact .closure read single distinct
          | none =>
            show Calls room scope .function _
              (Builtin.function.mismatch "distinct identifier parameter names" (.string names))
            exact .wrongType _ (by simp)
    | _ => exact .wrongType "a string body" (by simp)
  | _ => exact .wrongType "a string of parameter names" (by simp)

/-- A native function follows the rules. -/
theorem calls (builtin : Builtin) (room scope : Nat) (args : List Expr) :
    Calls room scope builtin args (builtin.call room scope args) := by
  fun_cases call builtin room scope args with
  | case1 args => exact calls_text args
  | case2 args => exact .list args
  | case3 value => exact .identity value
  | case4 name value => exact calls_define name value
  | case5 params body => exact calls_function params body
  | case6 first second => exact calls_arithmetic _ first second
  | case7 first second => exact calls_arithmetic _ first second
  | case8 first second => exact calls_arithmetic _ first second
  | case9 builtin args notText notList notIdentity notDefine notFunction notAdd notSubtract
      notMultiply =>
    have notPair : ∀ native : Builtin,
        (∀ first second, builtin = native → args = [first, second] → False) →
        builtin = native → args.length ≠ 2 := by
      intro native excluded same pair
      obtain ⟨first, second, both⟩ := List.length_eq_two.mp pair
      exact excluded first second same both
    have notSingle : builtin = .identity → args.length ≠ 1 := by
      intro same single
      obtain ⟨value, only⟩ := List.length_eq_one_iff.mp single
      exact notIdentity value same only
    cases builtin with
    | text => exact (notText rfl).elim
    | list => exact (notList rfl).elim
    | identity => exact .wrongCount rfl (notSingle rfl)
    | define => exact .wrongCount rfl (notPair _ notDefine rfl)
    | function => exact .wrongCount rfl (notPair _ notFunction rfl)
    | add => exact .wrongCount rfl (notPair _ notAdd rfl)
    | subtract => exact .wrongCount rfl (notPair _ notSubtract rfl)
    | multiply => exact .wrongCount rfl (notPair _ notMultiply rfl)

end Lisplet.Builtin
