import Lisplet.Error.Message
import Lisplet.Expr.Nesting

/-!
Printing on what is left of the stack.

Printing goes down into lists, from the left to the right. It ends as it would with a stack that has no end,
unless it comes to a list for which there is no room left before it fails for another reason. So an
expression whose lists fit is printed as ever.

* `Expr.printWithin_cases`: how printing ends.
* `Expr.nesting_le_of_printWithin`: what was printed did fit.
* `Expr.plain_cases`: the same for what an expression contributes to a text.
-/

namespace Lisplet.Expr

variable {room : Nat} {fault : Fault}

/-- Printing with all the room that is needed fails because of a number. -/
theorem exists_of_printed {expr : Expr} (stuck : expr.printed = .error fault) :
    ∃ number, expr.print = .error number ∧ fault = .breakdown (.floatRange number) := by
  rw [printed] at stuck
  cases printing : expr.print with
  | ok text =>
    rw [printing] at stuck
    cases stuck
  | error number =>
    rw [printing] at stuck
    cases stuck
    exact ⟨number, rfl, rfl⟩

/-- The printed forms of several expressions, with all the room that is needed. -/
def printedAll (items : List Expr) : Except Fault (List String) :=
  (printAll items).mapError fun number => .breakdown (.floatRange number)

theorem printed_list (items : List Expr) :
    (Expr.list items).printed = do return "(" ++ " ".intercalate (← printedAll items) ++ ")" := by
  rw [printed, print, printedAll]
  cases printAll items <;> rfl

theorem printedAll_cons (first : Expr) (rest : List Expr) :
    printedAll (first :: rest) = do
      let text ← first.printed
      let texts ← printedAll rest
      return text :: texts := by
  rw [printedAll, printAll, printed, printedAll]
  cases first.print with
  | error number => rfl
  | ok text => cases printAll rest <;> rfl

mutual

/-- Printing ends as it would with all the room that is needed, or the stack is used up, which needs lists
that are nested deeper than there is room for. By induction on the expression. -/
theorem printWithin_cases (room : Nat) (expr : Expr) :
    expr.printWithin room = expr.printed ∨
      room < expr.nesting ∧ expr.printWithin room = .error .exhausted := by
  cases expr with
  | list items =>
    cases room with
    | zero => exact .inr ⟨Nat.succ_pos _, rfl⟩
    | succ room =>
      rw [printWithin, printed_list, nesting]
      obtain same | ⟨deep, stuck⟩ := printAllWithin_cases room items
      · exact .inl (by rw [same])
      · exact .inr ⟨Nat.succ_lt_succ deep, by rw [stuck]; rfl⟩
  | _ => cases room <;> exact .inl rfl

theorem printAllWithin_cases (room : Nat) (items : List Expr) :
    printAllWithin room items = printedAll items ∨
      room < nestingAll items ∧ printAllWithin room items = .error .exhausted := by
  cases items with
  | nil => exact .inl rfl
  | cons first rest =>
    rw [printAllWithin, printedAll_cons, nestingAll]
    obtain same | ⟨deep, stuck⟩ := printWithin_cases room first
    · rw [same]
      cases first.printed with
      | error fault => exact .inl rfl
      | ok text =>
        obtain same | ⟨deep, stuck⟩ := printAllWithin_cases room rest
        · exact .inl (by rw [same])
        · exact .inr ⟨Nat.lt_of_lt_of_le deep (Nat.le_max_right _ _), by rw [stuck]; rfl⟩
    · exact .inr ⟨Nat.lt_of_lt_of_le deep (Nat.le_max_left _ _), by rw [stuck]; rfl⟩

end

mutual

/-- What was printed is nested no deeper than there was room for. -/
theorem nesting_le_of_printWithin {room : Nat} {expr : Expr} {text : String}
    (done : expr.printWithin room = .ok text) : expr.nesting ≤ room := by
  cases expr with
  | list items =>
    cases room with
    | zero => cases done
    | succ room =>
      rw [printWithin] at done
      cases all : printAllWithin room items with
      | error fault =>
        rw [all] at done
        cases done
      | ok texts => exact Nat.succ_le_succ (nestingAll_le_of_printAllWithin all)
  | _ => exact Nat.zero_le room

theorem nestingAll_le_of_printAllWithin {room : Nat} {items : List Expr} {texts : List String}
    (done : printAllWithin room items = .ok texts) : nestingAll items ≤ room := by
  cases items with
  | nil => exact Nat.zero_le room
  | cons first rest =>
    rw [printAllWithin] at done
    cases one : first.printWithin room with
    | error fault =>
      rw [one] at done
      cases done
    | ok text =>
      cases all : printAllWithin room rest with
      | error fault =>
        rw [one, all] at done
        cases done
      | ok others =>
        exact Nat.max_le.mpr
          ⟨nesting_le_of_printWithin one, nestingAll_le_of_printAllWithin all⟩

end

/-- What an expression contributes to a text: a string its own characters. Anything else is printed, or
the stack is used up. -/
theorem plain_cases (room : Nat) (expr : Expr) :
    (∃ content, expr = .string content ∧ expr.plain room = .ok content) ∨
      (∀ content, expr ≠ .string content) ∧ (expr.plain room = expr.printed ∨
        room < expr.nesting ∧ expr.plain room = .error .exhausted) := by
  cases expr with
  | string content => exact .inl ⟨content, rfl, rfl⟩
  | _ => exact .inr ⟨fun _ same => (nomatch same), printWithin_cases room _⟩

/-- What cannot be contributed to a text cannot be printed, or the stack is used up. -/
theorem error_of_plain {expr : Expr} (stuck : expr.plain room = .error fault) :
    fault = .exhausted ∨ expr.printed = .error fault := by
  obtain ⟨content, _, said⟩ | ⟨_, same | ⟨_, exhausted⟩⟩ := plain_cases room expr
  · rw [said] at stuck
    cases stuck
  · exact .inr (same ▸ stuck)
  · rw [exhausted] at stuck
    cases stuck
    exact .inl rfl

end Lisplet.Expr
