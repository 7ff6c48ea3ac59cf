import Lisplet.Chunk
import Lisplet.Proofs.Joining

/-!
The continuation test against the reader.

Whether a text can be completed by further lines is decided by counting parentheses, while reading
keeps the open lists themselves. The two agree: the count is the depth of the nest as long as no
flaw was met.

* `Nest.openLists?_of_feeds`: one token, counted and taken in.
* `Nest.openLists?_of_feedAll`: the count after all tokens is the number of open lists.
* `Nest.cause_of_feedAll`: what stops a nest is a closing parenthesis that the counter refuses as
  well, a malformed number or a list that is too deep.
* `isIncomplete_agrees_with_reading`: an incomplete text is one that reading finds to end too early,
  unless it meets a malformed number or a list that is too deep first.
-/

namespace Lisplet

/-! ### Counting and taking in -/

section Counting

variable {token : Token} (depth : Nat) (tokens : List Token)

theorem openLists?_leftParen (shape : token.shape = .leftParen) :
    openLists? depth (token :: tokens) = openLists? (depth + 1) tokens := by
  simp only [openLists?, shape]

theorem openLists?_rightParen (shape : token.shape = .rightParen) :
    openLists? (depth + 1) (token :: tokens) = openLists? depth tokens := by
  simp only [openLists?, shape]

theorem openLists?_unbalanced (shape : token.shape = .rightParen) :
    openLists? 0 (token :: tokens) = none := by
  simp only [openLists?, shape]

theorem openLists?_atom (notLeft : token.shape ≠ .leftParen)
    (notRight : token.shape ≠ .rightParen) :
    openLists? depth (token :: tokens) = openLists? depth tokens := by
  cases shape : token.shape <;> simp_all [openLists?]

end Counting

namespace Nest

variable {limit : Int}

/-- Counting a token that is taken in. -/
theorem openLists?_of_feeds {nest fed : Nest} {token : Token}
    (rule : Feeds limit nest token (.ok fed)) (tokens : List Token) :
    openLists? nest.depth (token :: tokens) = openLists? fed.depth tokens := by
  cases rule with
  | atom denotes =>
    obtain ⟨notLeft, notRight⟩ := Token.not_paren_of_atom? denotes
    rw [openLists?_atom _ _ notLeft notRight, depth_push]
  | opens shape room => rw [openLists?_leftParen _ _ shape, depth_openList]
  | closes shape closing => rw [depth_of_closeList? closing, openLists?_rightParen _ _ shape]

/-- The count after all tokens is the number of open lists. -/
theorem openLists?_of_feedAll {nest fed : Nest} {tokens : List Token}
    (taken : nest.feedAll limit tokens = (fed, none)) :
    openLists? nest.depth tokens = some fed.depth := by
  induction tokens generalizing nest with
  | nil =>
    cases taken
    rfl
  | cons token tokens previous =>
    obtain ⟨middle, rule, later⟩ := feedAll_cons_fed taken
    rw [openLists?_of_feeds rule]
    exact previous later

/-- What stops a nest is a closing parenthesis that the counter refuses as well, a malformed number
or a list that is too deep. -/
theorem cause_of_feedAll {nest fed : Nest} {tokens : List Token} {flaw : Flaw} {token : Token}
    (stopped : nest.feedAll limit tokens = (fed, some (flaw, token))) :
    (flaw.cause = .unbalanced ∧ openLists? nest.depth tokens = none) ∨
      (∃ text, flaw.cause = .malformedNumber text) ∨ flaw.cause = .tooDeep limit := by
  induction tokens generalizing nest with
  | nil => cases stopped
  | cons first tokens previous =>
    obtain ⟨rule, rfl⟩ | ⟨middle, rule, later⟩ := feedAll_cons_stopped stopped
    · cases rule with
      | unbalanced shape closed => exact .inl ⟨rfl, by rw [closed, openLists?_unbalanced _ shape]⟩
      | malformed => exact .inr (.inl ⟨_, rfl⟩)
      | tooDeep => exact .inr (.inr rfl)
    · rw [openLists?_of_feeds rule]
      exact previous later

end Nest

/-! ### Texts in which only parentheses can go wrong -/

/-- Every numeral among the tokens denotes a number. -/
def NumbersFit (tokens : List Token) : Prop :=
  ∀ token ∈ tokens, token.shape = .number → numeral? token.text ≠ none

/-- At no point do the tokens leave more than `limit` lists open, from `depth` open lists on. -/
def NestingFits (limit : Int) (depth : Nat) (tokens : List Token) : Prop :=
  ∀ count opened, openLists? depth (tokens.take count) = some opened →
    opened = 0 ∨ (opened : Int) ≤ limit

/-- If numbers and nesting fit, only a closing parenthesis can stop a nest. -/
theorem Nest.cause_of_fits {limit : Int} {nest fed : Nest} {tokens : List Token} {flaw : Flaw}
    {token : Token} (numbers : NumbersFit tokens) (nesting : NestingFits limit nest.depth tokens)
    (stopped : nest.feedAll limit tokens = (fed, some (flaw, token))) :
    flaw.cause = .unbalanced := by
  induction tokens generalizing nest with
  | nil => cases stopped
  | cons first tokens previous =>
    obtain ⟨rule, rfl⟩ | ⟨middle, rule, later⟩ := feedAll_cons_stopped stopped
    · cases rule with
      | unbalanced => rfl
      | malformed shape denotes => exact absurd denotes (numbers token List.mem_cons_self shape)
      | tooDeep shape deep =>
        have counted :
            openLists? nest.depth ((token :: tokens).take 1) = some (nest.depth + 1) := by
          rw [List.take_succ_cons, openLists?_leftParen _ _ shape]
          rfl
        have fits := nesting 1 (nest.depth + 1) counted
        omega
    · refine previous (fun other member => numbers other (List.mem_cons_of_mem _ member)) ?_ later
      intro count opened counted
      refine nesting (count + 1) opened ?_
      rw [List.take_succ_cons, openLists?_of_feeds rule]
      exact counted

/-! ### The test and the reader -/

/-- A text that no further line could complete is not found to end too early. -/
theorem cause_ne_endOfInput_of_complete {limit : Int} {code : String} {flaw : Flaw}
    (complete : isIncomplete code = false)
    (read : (Reading.ofText limit code).flaw = some flaw) : flaw.cause ≠ .endOfInput := by
  intro ended
  rcases fed : Nest.feedAll limit {} (Scan.ofText code).tokens with ⟨nest, _ | ⟨found, token⟩⟩
  · have counted : openLists? 0 (Scan.ofText code).tokens = some nest.depth :=
      Nest.openLists?_of_feedAll fed
    rw [Reading.ofText, (Cursor.readAll_of_fed fed).2] at read
    split at read
    · cases read
    rename_i unfinished
    simp only [Option.some.injEq] at read
    rw [← read] at ended
    simp only [isIncomplete, counted] at complete
    change ¬((Scan.ofText code).flaw.isNone ∧ nest.depth = 0) at unfinished
    change (Cursor.endFlaw (Scan.ofText code)).cause = .endOfInput at ended
    cases spoiled : (Scan.ofText code).flaw with
    | none =>
      simp only [spoiled, decide_eq_false_iff_not] at complete
      simp only [spoiled, Option.isNone_none, true_and] at unfinished
      omega
    | some other =>
      simp only [spoiled, decide_eq_false_iff_not] at complete
      simp only [Cursor.endFlaw, spoiled, Option.getD_some] at ended
      exact complete ended
  · rw [Reading.ofText, (Cursor.readAll_of_stop fed).2] at read
    cases read
    obtain ⟨cause, _⟩ | ⟨text, cause⟩ | cause := Nest.cause_of_feedAll fed <;>
      simp [cause] at ended

/-- In a text that further lines could complete no parenthesis closes more than is open. -/
theorem openLists?_ne_none_of_incomplete {code : String} (incomplete : isIncomplete code = true) :
    openLists? 0 (Scan.ofText code).tokens ≠ none := by
  intro refused
  simp [isIncomplete, refused] at incomplete

/-- A text that further lines could complete is found to end too early, if all its tokens can be
taken in. -/
theorem endOfInput_of_incomplete {limit : Int} {code : String} {nest : Nest}
    (incomplete : isIncomplete code = true)
    (fed : Nest.feedAll limit {} (Scan.ofText code).tokens = (nest, none)) :
    ∃ flaw, (Reading.ofText limit code).flaw = some flaw ∧ flaw.cause = .endOfInput := by
  have counted : openLists? 0 (Scan.ofText code).tokens = some nest.depth :=
    Nest.openLists?_of_feedAll fed
  have read : (Reading.ofText limit code).flaw =
      if (Scan.ofText code).flaw.isNone ∧ nest.depth = 0 then none
      else some (Cursor.endFlaw (Scan.ofText code)) := (Cursor.readAll_of_fed fed).2
  simp only [isIncomplete, counted] at incomplete
  refine ⟨Cursor.endFlaw (Scan.ofText code), ?_⟩
  cases spoiled : (Scan.ofText code).flaw with
  | none =>
    simp only [spoiled, decide_eq_true_eq] at incomplete
    have opened : nest.depth ≠ 0 := Nat.ne_of_gt incomplete
    simp [read, opened, Cursor.endFlaw, spoiled, Flaw.at]
  | some other =>
    simp only [spoiled, decide_eq_true_eq] at incomplete
    simp [read, Cursor.endFlaw, spoiled, incomplete]

/-- A text that further lines could complete is found to end too early, unless another flaw of a
form comes first. -/
theorem flaw_of_incomplete {limit : Int} {code : String} (incomplete : isIncomplete code = true) :
    ∃ flaw, (Reading.ofText limit code).flaw = some flaw ∧
      (flaw.cause = .endOfInput ∨ (∃ text, flaw.cause = .malformedNumber text) ∨
        flaw.cause = .tooDeep limit) := by
  rcases fed : Nest.feedAll limit {} (Scan.ofText code).tokens with ⟨nest, _ | ⟨found, token⟩⟩
  · obtain ⟨flaw, read, cause⟩ := endOfInput_of_incomplete incomplete fed
    exact ⟨flaw, read, .inl cause⟩
  · refine ⟨found, (Cursor.readAll_of_stop fed).2, ?_⟩
    obtain ⟨_, refused⟩ | cause := Nest.cause_of_feedAll fed
    · exact absurd refused (openLists?_ne_none_of_incomplete incomplete)
    · exact .inr cause

/-- **The continuation test agrees with the reader.** A complete text is never found to end too
early. An incomplete one is never read, and what it fails with is the end of the text, a malformed
number or a list that is too deep. If the numbers and the nesting of a text fit, it is incomplete
exactly if it is found to end too early. -/
theorem isIncomplete_agrees_with_reading (code : String) (limit : Int) :
    (isIncomplete code = false →
      ∀ flaw, (Reading.ofText limit code).flaw = some flaw → flaw.cause ≠ .endOfInput) ∧
    (isIncomplete code = true →
      ∃ flaw, (Reading.ofText limit code).flaw = some flaw ∧
        (flaw.cause = .endOfInput ∨ (∃ text, flaw.cause = .malformedNumber text) ∨
          flaw.cause = .tooDeep limit)) ∧
    (NumbersFit (Scan.ofText code).tokens → NestingFits limit 0 (Scan.ofText code).tokens →
      (isIncomplete code = true ↔
        ∃ flaw, (Reading.ofText limit code).flaw = some flaw ∧ flaw.cause = .endOfInput)) := by
  refine ⟨fun complete flaw read => cause_ne_endOfInput_of_complete complete read,
    flaw_of_incomplete, fun numbers nesting => ⟨fun incomplete => ?_, ?_⟩⟩
  · rcases fed : Nest.feedAll limit {} (Scan.ofText code).tokens with ⟨nest, _ | ⟨found, token⟩⟩
    · exact endOfInput_of_incomplete incomplete fed
    · have unbalanced := Nest.cause_of_fits numbers nesting fed
      obtain ⟨_, refused⟩ | ⟨text, cause⟩ | cause := Nest.cause_of_feedAll fed
      · exact absurd refused (openLists?_ne_none_of_incomplete incomplete)
      · simp [unbalanced] at cause
      · simp [unbalanced] at cause
  · rintro ⟨flaw, read, ended⟩
    cases complete : isIncomplete code with
    | true => rfl
    | false => exact absurd ended (cause_ne_endOfInput_of_complete complete read)

/-- A list with an open string in it, and a line that would complete it. -/
theorem isIncomplete_agrees_with_reading_open :
    isIncomplete "(f \"a\\n b" = true ∧
      (∃ flaw, (Reading.ofText 3 "(f \"a\\n b").flaw = some flaw ∧ flaw.cause = .endOfInput) ∧
      isIncomplete "(f \"a\\n b\")" = false ∧
      ∀ flaw, (Reading.ofText 3 "(f \"a\\n b\")").flaw = some flaw → flaw.cause ≠ .endOfInput := by
  have incomplete : isIncomplete "(f \"a\\n b" = true := by decide +kernel
  have complete : isIncomplete "(f \"a\\n b\")" = false := by decide +kernel
  have tokens : (Scan.ofText "(f \"a\\n b").tokens =
      [⟨.leftParen, "(", 0, 1⟩, ⟨.identifier, "f", 1, 2⟩] := by decide +kernel
  have numbers : NumbersFit (Scan.ofText "(f \"a\\n b").tokens := by
    rw [tokens]
    simp [NumbersFit]
  have nesting : NestingFits 3 0 (Scan.ofText "(f \"a\\n b").tokens := by
    rw [tokens]
    intro count opened counted
    rcases count with _ | _ | count <;> simp [openLists?] at counted <;> omega
  exact ⟨incomplete,
    ((isIncomplete_agrees_with_reading _ 3).2.2 numbers nesting).mp incomplete, complete,
    (isIncomplete_agrees_with_reading _ 3).1 complete⟩

end Lisplet
