import Lisplet.Form.Nest

/-!
The rules of building forms.

What a token does to a nest is described once by rules, one for each way in which it is taken in or
refused; every other fact on forms is a case analysis over these rules.

* `Token.atom?`: the atom that a token stands for.
* `Nest.Feeds`: what comes of a nest and a token.
* `Nest.feed_eq_iff`: a nest takes in a token by these rules and no others.
* `Nest.feedAll_cons_fed`, `Nest.feedAll_cons_stopped`: the first of several tokens, if all are
  taken in and if one is refused.
* `Nest.feedAll_append`: joined token sequences.
-/

namespace Lisplet

/-! ### One token -/

/-- The atom that a token stands for. A parenthesis stands for none, nor does a malformed numeral.
-/
def Token.atom? (token : Token) : Option Expr :=
  match token.shape with
  | .identifier => some (.identifier token.text)
  | .string => some (.string token.text)
  | .number => numeral? token.text
  | .leftParen => none
  | .rightParen => none

/-- The rules of taking in a token. -/
inductive Nest.Feeds (limit : Int) (nest : Nest) (token : Token) : Except Flaw Nest → Prop
  | atom {item : Expr} (denotes : token.atom? = some item) :
      Feeds limit nest token (.ok (nest.push item))
  | malformed (shape : token.shape = .number) (denotes : numeral? token.text = none) :
      Feeds limit nest token (.error ⟨.malformedNumber token.text, token.start, token.stop⟩)
  | opens (shape : token.shape = .leftParen) (room : (nest.depth : Int) + 1 ≤ limit) :
      Feeds limit nest token (.ok nest.openList)
  | tooDeep (shape : token.shape = .leftParen) (deep : limit < (nest.depth : Int) + 1) :
      Feeds limit nest token (.error ⟨.tooDeep limit, token.start, token.stop⟩)
  | closes {closed : Nest} (shape : token.shape = .rightParen)
      (closing : nest.closeList? = some closed) : Feeds limit nest token (.ok closed)
  | unbalanced (shape : token.shape = .rightParen) (closed : nest.depth = 0) :
      Feeds limit nest token (.error ⟨.unbalanced, token.start, token.stop⟩)

/-- A token is taken in by these rules. -/
theorem Nest.feeds (limit : Int) (nest : Nest) (token : Token) :
    Feeds limit nest token (nest.feed limit token) := by
  unfold feed
  cases shape : token.shape with
  | identifier => exact .atom (by simp [Token.atom?, shape])
  | string => exact .atom (by simp [Token.atom?, shape])
  | number =>
    cases denotes : numeral? token.text with
    | none => exact .malformed shape denotes
    | some item => exact .atom (by simp [Token.atom?, shape, denotes])
  | leftParen =>
    by_cases deep : limit < (nest.depth : Int) + 1
    · rw [if_pos deep]
      exact .tooDeep shape deep
    · rw [if_neg deep]
      exact .opens shape (by omega)
  | rightParen =>
    cases closed : nest.closeList? with
    | none => exact .unbalanced shape ((closeList?_eq_none_iff nest).mp closed)
    | some after => exact .closes shape closed

/-- A rule that applies is the one that is followed. -/
theorem Nest.Feeds.feed_eq {limit : Int} {nest : Nest} {token : Token} {result : Except Flaw Nest}
    (rule : Feeds limit nest token result) : nest.feed limit token = result := by
  unfold feed
  cases rule with
  | atom denotes => cases shape : token.shape <;> simp_all [Token.atom?]
  | malformed shape denotes => simp only [shape, denotes]
  | opens shape room =>
    have notDeep : ¬ limit < (nest.depth : Int) + 1 := by omega
    simp only [shape, if_neg notDeep]
  | tooDeep shape deep => simp only [shape, if_pos deep]
  | closes shape closing => simp only [shape, closing]
  | unbalanced shape closed =>
    have none := (closeList?_eq_none_iff nest).mpr closed
    simp only [shape, none]

/-- A nest takes in a token by the rules, and no others. -/
theorem Nest.feed_eq_iff {limit : Int} {nest : Nest} {token : Token} {result : Except Flaw Nest} :
    nest.feed limit token = result ↔ Feeds limit nest token result := by
  refine ⟨fun taken => ?_, fun rule => rule.feed_eq⟩
  rw [← taken]
  exact nest.feeds limit token

theorem Token.not_paren_of_atom? {token : Token} {item : Expr} (denotes : token.atom? = some item) :
    token.shape ≠ .leftParen ∧ token.shape ≠ .rightParen := by
  cases shape : token.shape <;> simp_all [Token.atom?]

/-! ### Several tokens -/

namespace Nest

variable {limit : Int}

theorem feedAll_cons_fed {nest fed : Nest} {token : Token} {tokens : List Token}
    (taken : nest.feedAll limit (token :: tokens) = (fed, none)) :
    ∃ middle, Feeds limit nest token (.ok middle) ∧ middle.feedAll limit tokens = (fed, none) := by
  rw [feedAll] at taken
  cases step : nest.feed limit token with
  | error flaw => simp [step] at taken
  | ok middle =>
    simp only [step] at taken
    exact ⟨middle, feed_eq_iff.mp step, taken⟩

theorem feedAll_cons_stopped {nest fed : Nest} {first token : Token} {tokens : List Token}
    {flaw : Flaw} (stopped : nest.feedAll limit (first :: tokens) = (fed, some (flaw, token))) :
    (Feeds limit nest first (.error flaw) ∧ token = first) ∨
      ∃ middle, Feeds limit nest first (.ok middle) ∧
        middle.feedAll limit tokens = (fed, some (flaw, token)) := by
  rw [feedAll] at stopped
  cases step : nest.feed limit first with
  | error found =>
    simp only [step, Prod.mk.injEq, Option.some.injEq] at stopped
    obtain ⟨_, rfl, rfl⟩ := stopped
    exact .inl ⟨feed_eq_iff.mp step, rfl⟩
  | ok middle =>
    simp only [step] at stopped
    exact .inr ⟨middle, feed_eq_iff.mp step, stopped⟩

/-- Joined token sequences are taken in one after the other. -/
theorem feedAll_append (nest : Nest) (first second : List Token) :
    nest.feedAll limit (first ++ second) =
      match nest.feedAll limit first with
      | (fed, none) => fed.feedAll limit second
      | (fed, some stop) => (fed, some stop) := by
  induction first generalizing nest with
  | nil => rfl
  | cons token tokens previous =>
    simp only [List.cons_append, feedAll]
    cases nest.feed limit token with
    | error flaw => rfl
    | ok fed => exact previous fed

/-- A nest is stopped by one of the tokens, and the flaw has its span. -/
theorem span_of_feedAll {nest fed : Nest} {tokens : List Token} {flaw : Flaw} {token : Token}
    (stopped : nest.feedAll limit tokens = (fed, some (flaw, token))) :
    token ∈ tokens ∧ flaw.start = token.start ∧ flaw.stop = token.stop := by
  induction tokens generalizing nest with
  | nil => cases stopped
  | cons first tokens previous =>
    obtain ⟨rule, rfl⟩ | ⟨middle, _, later⟩ := feedAll_cons_stopped stopped
    · cases rule <;> exact ⟨List.mem_cons_self, rfl, rfl⟩
    · obtain ⟨member, span⟩ := previous later
      exact ⟨List.mem_cons_of_mem _ member, span⟩

end Nest

end Lisplet
