import Lisplet.Proofs.SingleForms
import Lisplet.Proofs.Spelling
import Mathlib.Data.List.Chain

/-!
Reading tokens loses nothing.

The spans of the tokens of a text follow one another, with nothing but blanks in front of, between and,
if there is no flaw, behind them; and every token goes on as far as it can. While the tokens are read
the cursor moves forward only, and not beyond the end of the text.

* `Scan.Lossless`: what stands between the tokens of a text, and behind each.
* `Scans.lossless`: the tokens from any cursor on.
* `Cursor.StandsIn`: the cursors of a text.
* `Cursor.StandsIn.next`: one token, or one flaw, moves the cursor forward in the text.
* `Cursor.Emits`: the cursors that are come by while tokens are read one after the other.
* `Scan.loses_nothing`: all of it, for all tokens of a text.
-/

namespace Lisplet

/-! ### What stands between tokens -/

/-- Only blanks stand between two offsets. -/
def BlankBetween (code : List Char) (first last : Nat) : Prop :=
  ∀ char ∈ Text.slice code first last, isSpacing char = true

/-- An identifier or a numeral is followed by the end of the text or a character that ends it. -/
def Token.GoesFar (code : List Char) (token : Token) : Prop :=
  match token.shape with
  | .identifier => Halts endsIdentifier (code.drop token.stop)
  | .number => Halts endsNumeral (code.drop token.stop)
  | .leftParen => True
  | .rightParen => True
  | .string => True

/-- The tokens of a text from an offset on leave nothing out: only blanks stand in front of the first
one, between two that follow one another and, unless there is a flaw, behind the last one. -/
structure Scan.Lossless (code : List Char) (place : Nat) (scan : Scan) : Prop where
  first : ∀ token ∈ scan.tokens.head?, place ≤ token.start ∧ BlankBetween code place token.start
  between : scan.tokens.IsChain fun former latter =>
    former.stop ≤ latter.start ∧ BlankBetween code former.stop latter.start
  last : scan.flaw = none →
    BlankBetween code ((scan.tokens.getLast?.map Token.stop).getD place) code.length
  farthest : ∀ token ∈ scan.tokens, token.GoesFar code

theorem blankBetween_of_append {front blanks rest : List Char}
    (blank : ∀ char ∈ blanks, isSpacing char = true) {first last : Nat}
    (start : first = front.length) (stop : last = front.length + blanks.length) :
    BlankBetween (front ++ (blanks ++ rest)) first last := by
  subst start stop
  unfold BlankBetween
  rw [Text.slice_append]
  exact blank

theorem Lexes.goesFar {offset : Nat} {rest : List Char} {token : Token} {after : Cursor}
    (lexes : Lexes offset rest (.ok token) after) {code : List Char}
    (behind : code.drop token.stop = after.rest) : token.GoesFar code := by
  unfold Token.GoesFar
  rw [behind]
  cases lexes with
  | leftParen => trivial
  | rightParen => trivial
  | string => trivial
  | number _ halts => exact halts
  | identifier _ halts => exact halts

/-- By induction on the rules of reading tokens: `front` is what stands in front of the cursor. -/
theorem Scans.lossless {cursor : Cursor} {scan : Scan} (scans : Scans cursor scan) :
    ∀ front : List Char, front.length = cursor.offset →
      scan.Lossless (front ++ cursor.rest) cursor.offset := by
  induction scans with
  | @ended offset blanks blank =>
    intro front place
    refine ⟨by simp, .nil, fun _ => ?_, by simp⟩
    have all : BlankBetween (front ++ (blanks ++ [])) offset (front ++ blanks).length :=
      blankBetween_of_append blank (Eq.symm place) List.length_append
    rwa [List.append_nil] at all
  | @flawed offset blanks rest flaw after blank begins lexes =>
    intro front place
    exact ⟨by simp, .nil, by simp, by simp⟩
  | @token offset blanks rest token after scan blank begins lexes more previous =>
    intro front place
    obtain ⟨body, split, _, _, stop⟩ := lexes.spelling
    have here : after.offset = offset + blanks.length + body.length := by
      rw [← lexes.stop_eq, stop]
    have whole : front ++ (blanks ++ rest) = front ++ blanks ++ body ++ after.rest := by
      rw [split]
      simp
    have length : (front ++ blanks ++ body).length = after.offset := by
      rw [here, List.length_append, List.length_append, place]
    -- The rest is read from behind this token, so what holds of it is about the same text.
    have later := previous (front ++ blanks ++ body) length
    rw [← whole, ← lexes.stop_eq] at later
    have gap : BlankBetween (front ++ (blanks ++ rest)) offset token.start :=
      blankBetween_of_append blank place.symm (by rw [lexes.start_eq, place])
    show Scan.Lossless (front ++ (blanks ++ rest)) offset (scan.cons token)
    refine ⟨?_, ?_, fun flawless => ?_, ?_⟩
    · intro other isFirst
      cases isFirst
      exact ⟨by rw [lexes.start_eq]; omega, gap⟩
    · exact List.isChain_cons.mpr ⟨later.first, later.between⟩
    · have final := later.last flawless
      simp only [Scan.cons, List.getLast?_cons, Option.map_some, Option.getD_some]
      cases isLast : scan.tokens.getLast? <;> rw [isLast] at final <;> exact final
    · intro other member
      obtain rfl | inside := List.mem_cons.mp member
      · refine lexes.goesFar ?_
        rw [whole, lexes.stop_eq, ← length, List.drop_left]
      · exact later.farthest other inside

/-! ### Where the cursor goes -/

namespace Cursor

/-- A cursor of a text: it does not stand beyond the end, and the rest of the text is left. -/
structure StandsIn (code : List Char) (cursor : Cursor) : Prop where
  inside : cursor.offset ≤ code.length
  rest : cursor.rest = code.drop cursor.offset

variable {code : List Char} {cursor : Cursor}

theorem standsIn_ofText (text : String) : (ofText text).StandsIn text.toList :=
  ⟨Nat.zero_le _, rfl⟩

/-- A cursor of a text in front of which `count` more characters are left. -/
theorem StandsIn.ahead (stands : cursor.StandsIn code) {after : Cursor} {count : Nat}
    (far : count ≤ cursor.rest.length) (offset : after.offset = cursor.offset + count)
    (left : after.rest = cursor.rest.drop count) : after.StandsIn code := by
  have length : cursor.rest.length = code.length - cursor.offset := by
    rw [stands.rest, List.length_drop]
  have inside := stands.inside
  refine ⟨by omega, ?_⟩
  rw [left, stands.rest, List.drop_drop, offset]

theorem StandsIn.skipSpacing (stands : cursor.StandsIn code) :
    cursor.skipSpacing.StandsIn code ∧ cursor.offset ≤ cursor.skipSpacing.offset :=
  ⟨stands.ahead (List.takeWhile_prefix _).length_le rfl rfl, Nat.le_add_right _ _⟩

end Cursor

/-- A token or a flaw moves the cursor towards the same end of the text. -/
theorem Lexes.reach_eq {offset : Nat} {rest : List Char} {result : Except Flaw Token}
    {after : Cursor} (lexes : Lexes offset rest result after) :
    after.offset + after.rest.length = offset + rest.length := by
  cases lexes <;> simp only [List.length_cons, List.length_append, List.length_nil] <;> omega

namespace Cursor

variable {code : List Char} {cursor : Cursor}

/-- Whatever comes of reading on, the cursor stays in the text and does not move back; a token takes it
forward, and ends where it stands then. -/
theorem StandsIn.next (stands : cursor.StandsIn code) {result : Except Flaw Token} {after : Cursor}
    (read : cursor.next = (result, after)) :
    after.StandsIn code ∧ cursor.offset ≤ after.offset ∧
      ∀ token, result = .ok token → cursor.offset < after.offset ∧ token.stop = after.offset := by
  obtain ⟨standsThen, skipped⟩ := stands.skipSpacing
  have lexes : Lexes cursor.skipSpacing.offset cursor.skipSpacing.rest result after :=
    readHere_eq_iff.mp read
  have reach := lexes.reach_eq
  have shorter := lexes.suffix.length_le
  have left := List.suffix_iff_eq_drop.mp lexes.suffix
  refine ⟨standsThen.ahead (Nat.sub_le _ _) (by omega) left, by omega, ?_⟩
  rintro token rfl
  have strictly := readHere_shorter read
  exact ⟨by omega, lexes.stop_eq⟩

/-- Tokens that are read one after the other from a cursor on, and the cursor behind the last one. -/
inductive Emits : Cursor → List Token → Cursor → Prop
  | nothing (cursor : Cursor) : Emits cursor [] cursor
  | token {cursor middle last : Cursor} {token : Token} {tokens : List Token}
      (goesOn : cursor.atEnd = false) (read : cursor.next = (.ok token, middle))
      (more : Emits middle tokens last) : Emits cursor (token :: tokens) last

theorem Emits.standsIn {tokens : List Token} {last : Cursor} (emits : cursor.Emits tokens last)
    (stands : cursor.StandsIn code) : last.StandsIn code ∧ cursor.offset ≤ last.offset := by
  induction emits with
  | nothing => exact ⟨stands, Nat.le_refl _⟩
  | token _ read _ previous =>
    obtain ⟨standsThen, forward, _⟩ := stands.next read
    obtain ⟨standsLast, further⟩ := previous standsThen
    exact ⟨standsLast, Nat.le_trans forward further⟩

end Cursor

/-- All tokens are read one after the other, and then either only blanks are left or a flaw is met. -/
theorem Scans.emits {cursor : Cursor} {scan : Scan} (scans : Scans cursor scan) :
    ∃ last, cursor.Emits scan.tokens last ∧
      match scan.flaw with
      | none => last.atEnd = true ∧ scan.cursor = last.skipSpacing
      | some flaw => last.next = (.error flaw, scan.cursor) := by
  induction scans with
  | ended blank =>
    refine ⟨_, .nothing _, ?_, (Cursor.skipSpacing_of_blank blank).symm⟩
    rw [Cursor.atEnd, Cursor.skipSpacing_of_blank blank]
    rfl
  | flawed blank begins lexes =>
    exact ⟨_, .nothing _, Cursor.next_of_lexes blank begins lexes⟩
  | token blank begins lexes more previous =>
    obtain ⟨last, emits, ends⟩ := previous
    refine ⟨last, ?_, ends⟩
    exact .token (Cursor.atEnd_of_begins blank begins) (Cursor.next_of_lexes blank begins lexes) emits

/-! ### All tokens of a text -/

namespace Scan

/-- **Reading tokens loses nothing.** Every token of a text has a span inside it that holds its
spelling; the spans follow one another with only blanks between them, and every token goes on as far as
it can. The tokens are read one after the other, then only blanks are left or a flaw is met; on the way
the cursor stays in the text and never moves back, every token takes it forward, and if there is no
flaw it ends at the end of the text. -/
theorem loses_nothing (code : String) :
    (∀ token ∈ (ofText code).tokens, token.StandsIn code.toList) ∧
      (ofText code).Lossless code.toList 0 ∧
      (∃ last, (Cursor.ofText code).Emits (ofText code).tokens last ∧
        match (ofText code).flaw with
        | none => last.atEnd = true ∧ (ofText code).cursor = last.skipSpacing ∧
          (ofText code).cursor.offset = code.toList.length
        | some flaw => last.next = (.error flaw, (ofText code).cursor)) ∧
      ∀ tokens cursor, (Cursor.ofText code).Emits tokens cursor →
        cursor.StandsIn code.toList ∧ cursor.skipSpacing.StandsIn code.toList ∧
          cursor.offset ≤ cursor.skipSpacing.offset ∧
          ∀ result after, cursor.next = (result, after) →
            after.StandsIn code.toList ∧ cursor.offset ≤ after.offset ∧
              ∀ token, result = .ok token →
                cursor.offset < after.offset ∧ token.stop = after.offset := by
  have scans : Scans (Cursor.ofText code) (ofText code) := scans_scan (Cursor.ofText code)
  refine ⟨(placed code).1, scans.lossless [] rfl, ?_, fun tokens cursor emits => ?_⟩
  · obtain ⟨last, emits, ends⟩ := scans.emits
    refine ⟨last, emits, ?_⟩
    cases spoiled : (ofText code).flaw with
    | some flaw =>
      rw [spoiled] at ends
      exact ends
    | none =>
      rw [spoiled] at ends
      refine ⟨ends.1, ends.2, ?_⟩
      rw [scans.cursor_of_flawless spoiled]
      exact Nat.zero_add _
  · obtain ⟨stands, _⟩ := emits.standsIn (Cursor.standsIn_ofText code)
    obtain ⟨standsThen, forward⟩ := stands.skipSpacing
    exact ⟨stands, standsThen, forward, fun result after read => stands.next read⟩

end Scan

end Lisplet
