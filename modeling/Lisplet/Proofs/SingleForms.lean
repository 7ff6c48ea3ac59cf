import Lisplet.Proofs.Joining

/-!
Reading a single form.

A single form is read up to the first token that completes one. If the tokens of a text make exactly
one form, that token is the last one, and only blanks are left behind it.

* `Nest.feedOne_of_feedAll`: tokens that make one form complete it with the last of them.
* `Scans.atEnd_behind_last`: only blanks stand behind the last token.
* `Cursor.readForm_of_feedAll`: a text of one form is read up to its end.
-/

namespace Lisplet

/-! ### The token that completes a form -/

namespace Nest

variable {limit : Int}

theorem ne_empty_of_feeds {nest fed : Nest} {token : Token}
    (rule : Feeds limit nest token (.ok fed)) : fed ≠ {} := by
  cases rule with
  | atom denotes => simp [push]
  | opens shape room => simp [openList]
  | closes shape closing =>
    obtain ⟨items, outer⟩ := nest
    cases outer with
    | nil => cases closing
    | cons around outer =>
      cases closing
      simp

/-- Only if there are no tokens is nothing there after all of them. -/
theorem eq_nil_of_feedAll_eq_empty {nest : Nest} {tokens : List Token}
    (taken : nest.feedAll limit tokens = ({}, none)) : tokens = [] := by
  induction tokens generalizing nest with
  | nil => rfl
  | cons token tokens previous =>
    obtain ⟨middle, rule, later⟩ := feedAll_cons_fed taken
    have none := previous later
    subst none
    have empty : middle = {} := congrArg Prod.fst later
    exact absurd empty (ne_empty_of_feeds rule)

theorem eq_empty_of_after {nest : Nest} {older : List Expr} {first form : Expr}
    (single : nest.after (first :: older) = ⟨[form], []⟩) : nest = {} ∧ first = form := by
  obtain ⟨items, outer⟩ := nest
  cases outer with
  | nil =>
    simp only [after, mk.injEq, and_true] at single
    cases items with
    | nil => exact ⟨rfl, (List.cons.inj single).1⟩
    | cons item items => simp at single
  | cons around outer =>
    have closed : lengthen (first :: older) (around :: outer) = [] := congrArg Nest.outer single
    have length := length_lengthen (first :: older) (around :: outer)
    rw [closed] at length
    cases length

theorem feedOne_of_complete {nest : Nest} {token : Token} {form : Expr} {older : List Expr}
    (rule : Feeds limit nest token (.ok ⟨form :: older, []⟩)) (tokens : List Token) :
    nest.feedOne limit (token :: tokens) = .complete form token := by
  rw [feedOne, rule.feed_eq]

theorem feedOne_of_unfinished {nest fed : Nest} {token : Token}
    (rule : Feeds limit nest token (.ok fed)) (unfinished : fed.outer = [] → fed.items = [])
    (tokens : List Token) : nest.feedOne limit (token :: tokens) = fed.feedOne limit tokens := by
  rw [feedOne, rule.feed_eq]
  obtain ⟨items, outer⟩ := fed
  cases outer with
  | cons around outer => rfl
  | nil =>
    have none : items = [] := unfinished rfl
    subst none
    rfl

/-- Tokens that make one form complete it with the last of them. -/
theorem feedOne_of_feedAll {nest : Nest} {tokens : List Token} {form : Expr}
    (unfinished : nest.outer = [] → nest.items = [])
    (taken : nest.feedAll limit tokens = (⟨[form], []⟩, none)) :
    ∃ token, tokens.getLast? = some token ∧ nest.feedOne limit tokens = .complete form token := by
  induction tokens generalizing nest with
  | nil =>
    cases taken
    exact absurd (unfinished rfl) (by simp)
  | cons token tokens previous =>
    obtain ⟨fed, rule, later⟩ := feedAll_cons_fed taken
    by_cases unfinishedThen : fed.outer = [] → fed.items = []
    · obtain ⟨last, isLast, completed⟩ := previous unfinishedThen later
      refine ⟨last, ?_, ?_⟩
      · rw [List.getLast?_cons, isLast]
        rfl
      · rw [feedOne_of_unfinished rule unfinishedThen]
        exact completed
    · -- A form is complete, and any further token would leave more than that behind it.
      obtain ⟨items, outer⟩ := fed
      simp only [Classical.not_imp] at unfinishedThen
      obtain ⟨rfl, nonempty⟩ := unfinishedThen
      obtain ⟨first, older, rfl⟩ := List.exists_cons_of_ne_nil nonempty
      have joined : feedAll limit ⟨first :: older, []⟩ tokens =
          ((feedAll limit {} tokens).1.after (first :: older), (feedAll limit {} tokens).2) :=
        feedAll_after (first :: older) {} tokens
      obtain ⟨single, flawless⟩ := Prod.mk.inj (joined.symm.trans later)
      obtain ⟨empty, rfl⟩ := eq_empty_of_after single
      have nothing : feedAll limit {} tokens = ({}, none) := Prod.ext empty flawless
      have noMore := eq_nil_of_feedAll_eq_empty nothing
      subst noMore
      exact ⟨token, rfl, feedOne_of_complete rule []⟩

end Nest

/-! ### What stands behind a token -/

namespace Cursor

theorem behind_behind {cursor : Cursor} {first second : Token} (start : cursor.offset ≤ first.stop)
    (order : first.stop ≤ second.stop) :
    (cursor.behind first).behind second = cursor.behind second := by
  simp only [behind, advance, List.drop_drop, mk.injEq]
  refine ⟨by omega, ?_⟩
  congr 1
  omega

end Cursor

/-- A token ends where the reading goes on. -/
theorem Lexes.stop_eq {offset : Nat} {rest : List Char} {token : Token} {after : Cursor}
    (lexes : Lexes offset rest (.ok token) after) : token.stop = after.offset := by
  cases lexes <;> rfl

theorem Lexes.offset_le {offset : Nat} {rest : List Char} {token : Token} {after : Cursor}
    (lexes : Lexes offset rest (.ok token) after) : offset ≤ after.offset := by
  have shorter := lexes.suffix.length_le
  have total := lexes.end_eq
  omega

/-- The cursor behind a token is the one where the reading goes on. -/
theorem Lexes.behind_eq {offset : Nat} {blanks rest : List Char} {token : Token} {after : Cursor}
    (lexes : Lexes (offset + blanks.length) rest (.ok token) after) :
    Cursor.behind ⟨offset, blanks ++ rest⟩ token = after := by
  obtain ⟨body, split⟩ := lexes.suffix
  have total := lexes.end_eq
  have length : rest.length = body.length + after.rest.length := by
    rw [← split, List.length_append]
  have count : token.stop - offset = (blanks ++ body).length := by
    rw [lexes.stop_eq, List.length_append]
    omega
  rw [Cursor.behind, Cursor.advance, count, ← split, ← List.append_assoc, List.drop_left]
  obtain ⟨afterOffset, afterRest⟩ := after
  simp only [List.length_append, Cursor.mk.injEq, and_true]
  simp only at total length
  omega

/-- All tokens end behind the place where the reading begins. -/
theorem Scans.offset_le_stop {cursor : Cursor} {scan : Scan} (scans : Scans cursor scan) :
    ∀ token ∈ scan.tokens, cursor.offset ≤ token.stop := by
  induction scans with
  | ended => simp
  | flawed => simp
  | @token offset blanks rest token after scan blank begins lexes more previous =>
    have forward := lexes.offset_le
    intro other member
    show offset ≤ other.stop
    obtain rfl | later := List.mem_cons.mp member
    · rw [lexes.stop_eq]
      omega
    · have bound := previous other later
      omega

theorem Scans.atEnd_of_no_tokens {cursor : Cursor} {scan : Scan} (scans : Scans cursor scan)
    (flawless : scan.flaw = none) (none : scan.tokens = []) : cursor.atEnd = true := by
  cases scans with
  | ended blank =>
    rw [Cursor.atEnd, Cursor.skipSpacing_of_blank blank]
    rfl
  | flawed => cases flawless
  | token => cases none

/-- In a text without a flaw, only blanks stand behind the last token. -/
theorem Scans.atEnd_behind_last {cursor : Cursor} {scan : Scan} (scans : Scans cursor scan)
    (flawless : scan.flaw = none) {last : Token} (isLast : scan.tokens.getLast? = some last) :
    (cursor.behind last).atEnd = true := by
  induction scans with
  | ended => cases isLast
  | flawed => cases flawless
  | @token offset blanks rest token after scan blank begins lexes more previous =>
    change (token :: scan.tokens).getLast? = some last at isLast
    -- The last token is this one or a later one, and then the places behind it are the same.
    cases tokens : scan.tokens with
    | nil =>
      rw [tokens, List.getLast?_singleton, Option.some.injEq] at isLast
      subst isLast
      rw [lexes.behind_eq]
      exact more.atEnd_of_no_tokens flawless tokens
    | cons second later =>
      have isLastLater : scan.tokens.getLast? = some last := by
        rwa [tokens, List.getLast?_cons_cons, ← tokens] at isLast
      have order : token.stop ≤ last.stop := by
        rw [lexes.stop_eq]
        exact more.offset_le_stop last (List.mem_of_getLast? isLastLater)
      have start : offset ≤ token.stop := by
        have forward := lexes.offset_le
        rw [lexes.stop_eq]
        omega
      have same : (Cursor.behind ⟨offset, blanks ++ rest⟩ token).behind last =
          Cursor.behind ⟨offset, blanks ++ rest⟩ last := Cursor.behind_behind start order
      rw [← same, lexes.behind_eq]
      exact previous flawless isLastLater

/-- A text of one form is read up to its end. -/
theorem Cursor.readForm_of_feedAll {limit : Int} {cursor : Cursor} {form : Expr}
    (flawless : cursor.scan.flaw = none)
    (taken : Nest.feedAll limit {} cursor.scan.tokens = (⟨[form], []⟩, none)) :
    ∃ after, cursor.readForm limit = (.ok form, after) ∧ after.atEnd = true := by
  obtain ⟨last, isLast, completed⟩ := Nest.feedOne_of_feedAll (fun _ => rfl) taken
  refine ⟨cursor.behind last, ?_, (scans_scan cursor).atEnd_behind_last flawless isLast⟩
  rw [readForm, completed]

end Lisplet
