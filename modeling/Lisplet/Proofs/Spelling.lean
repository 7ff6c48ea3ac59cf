import Lisplet.Proofs.Lexing
import Lisplet.Text.Slice

/-!
Where tokens and flaws stand in a text.

The span of a token holds the characters that the token is written with, and a flaw points at the
character that is wrong, or behind the last one if there are too few.

* `Token.Spelling`: the characters that a token is written with.
* `Flaw.PointsInto`: what the span of a flaw holds, by its cause.
* `Lexes.spelling`, `Lexes.culprit`: a single token or flaw.
* `Scans.placed`: all tokens of a text, and its flaw.
-/

namespace Lisplet

/-- The characters that a token is written with: a string in quotes and with escapes, all else as it
is. -/
def Token.Spelling (token : Token) (chars : List Char) : Prop :=
  match token.shape with
  | .identifier => chars = token.text.toList
  | .number => chars = token.text.toList
  | .leftParen => chars = ['(']
  | .rightParen => chars = [')']
  | .string => ∃ raw, chars = '"' :: (raw ++ ['"']) ∧ Spells raw token.text.toList

/-- The span of a token lies in a text and holds its spelling. -/
def Token.StandsIn (code : List Char) (token : Token) : Prop :=
  token.start < token.stop ∧ token.stop ≤ code.length ∧
    token.Spelling (Text.slice code token.start token.stop)

/-- The span of a flaw holds what the cause says is wrong. -/
def Flaw.PointsInto (code : List Char) (flaw : Flaw) : Prop :=
  flaw.start < flaw.stop ∧
    match flaw.cause with
    | .endOfInput => flaw.start = code.length
    | .notEscapable char => code[flaw.start]? = some '\\' ∧ code[flaw.start + 1]? = some char
    | .numberChar char => code[flaw.start]? = some char
    | .unexpectedChar char => code[flaw.start]? = some char
    | .unbalanced => Text.slice code flaw.start flaw.stop = [')']
    | .malformedNumber text => Text.slice code flaw.start flaw.stop = text.toList
    | .tooDeep _ => Text.slice code flaw.start flaw.stop = ['(']

theorem Text.slice_append (before body after : List Char) :
    Text.slice (before ++ (body ++ after)) before.length ((before.length + body.length : Nat) : Int)
      = body := by
  have first : Text.offsetOf (before ++ (body ++ after)).length before.length = before.length := by
    unfold Text.offsetOf
    rw [if_neg (by omega)]
    simp
  have last : Text.offsetOf (before ++ (body ++ after)).length
      ((before.length + body.length : Nat) : Int) = (before ++ body).length := by
    unfold Text.offsetOf
    rw [if_neg (by omega)]
    simp only [Int.toNat_natCast, List.length_append]
    omega
  simp only [Text.slice, first, last]
  rw [← List.append_assoc, List.take_left, List.drop_left]

/-! ### One token or flaw -/

theorem Lexes.spelling {offset : Nat} {rest : List Char} {token : Token} {after : Cursor}
    (lexes : Lexes offset rest (.ok token) after) :
    ∃ body, rest = body ++ after.rest ∧ body ≠ [] ∧ token.Spelling body ∧
      token.stop = offset + body.length := by
  cases lexes with
  | leftParen tail => exact ⟨['('], rfl, by simp, rfl, rfl⟩
  | rightParen tail => exact ⟨[')'], rfl, by simp, rfl, rfl⟩
  | @number body tail numeral halts =>
    exact ⟨body, rfl, numeral.2.1, String.toList_ofList.symm, rfl⟩
  | @identifier body tail name halts =>
    exact ⟨body, rfl, name.2.1, String.toList_ofList.symm, rfl⟩
  | @string raw text tail spelled =>
    refine ⟨'"' :: (raw ++ ['"']), by simp, by simp, ⟨raw, rfl, ?_⟩, ?_⟩
    · rw [String.toList_ofList]
      exact spelled
    · simp only [List.length_cons, List.length_append, List.length_nil]
      omega

theorem Lexes.culprit {offset : Nat} {rest : List Char} {flaw : Flaw} {after : Cursor}
    (lexes : Lexes offset rest (.error flaw) after) {front : List Char}
    (place : front.length = offset) : flaw.PointsInto (front ++ rest) := by
  subst place
  refine ⟨?_, ?_⟩
  · cases lexes <;> exact Nat.lt_succ_self _
  · cases lexes with
    | atEnd => simp [Flaw.at]
    | @numberChar body tail char numeral strange goesOn =>
      rw [← List.append_assoc]
      simp [Flaw.at]
    | @openString raw text spelled =>
      simp only [Flaw.at, List.length_append, List.length_cons]
      omega
    | @openEscape raw text spelled =>
      simp only [Flaw.at, List.length_append, List.length_cons, List.length_nil]
      omega
    | @notEscapable raw text code tail spelled strange =>
      have start : front.length + 1 + raw.length = (front ++ '"' :: raw).length := by
        simp only [List.length_append, List.length_cons]
        omega
      rw [← List.cons_append, ← List.append_assoc]
      simp only [Flaw.at, start, List.getElem?_append_right (Nat.le_refl _),
        List.getElem?_append_right (Nat.le_succ _)]
      simp
    | @unexpectedChar char tail ends notLeft notRight => simp [Flaw.at]

/-! ### All tokens -/

/-- Every token of a text stands in it, and its flaw points into it. -/
theorem Scans.placed {cursor : Cursor} {scan : Scan} (scans : Scans cursor scan) :
    ∀ front : List Char, front.length = cursor.offset →
      (∀ token ∈ scan.tokens, token.StandsIn (front ++ cursor.rest)) ∧
        ∀ flaw ∈ scan.flaw, flaw.PointsInto (front ++ cursor.rest) := by
  induction scans with
  | ended => simp
  | @flawed offset blanks rest flaw after blank begins lexes =>
    intro front place
    refine ⟨by simp, fun other found => ?_⟩
    cases found
    have behind : (front ++ blanks).length = offset + blanks.length := by
      rw [List.length_append, place]
    have culprit := lexes.culprit behind
    rwa [List.append_assoc] at culprit
  | @token offset blanks rest token after scan blank begins lexes more previous =>
    intro front place
    obtain ⟨body, split, nonempty, spelling, stop⟩ := lexes.spelling
    have start := lexes.start_eq
    have total := lexes.end_eq
    have length : rest.length = body.length + after.rest.length := by
      rw [split, List.length_append]
    -- The rest is read from behind the blanks and the body of this token.
    have whole : front ++ (blanks ++ rest) = front ++ blanks ++ body ++ after.rest := by
      rw [split]
      simp
    have later := previous (front ++ blanks ++ body) (by
      simp only [List.length_append, place]
      omega)
    show (∀ other ∈ token :: scan.tokens, other.StandsIn (front ++ (blanks ++ rest))) ∧
      ∀ flaw ∈ scan.flaw, flaw.PointsInto (front ++ (blanks ++ rest))
    rw [whole]
    refine ⟨fun other member => ?_, later.2⟩
    obtain rfl | inside := List.mem_cons.mp member
    · have front_length : (front ++ blanks).length = other.start := by simp [place, start]
      have stop_eq : other.stop = (front ++ blanks).length + body.length := by
        rw [front_length, stop, start]
      have positive : 0 < body.length := List.length_pos_iff.mpr nonempty
      refine ⟨by omega, ?_, ?_⟩
      · simp only [List.length_append] at stop_eq ⊢
        omega
      · have piece := Text.slice_append (front ++ blanks) body after.rest
        rw [← stop_eq, front_length, ← List.append_assoc] at piece
        rwa [piece]
    · exact later.1 other inside

theorem Scan.placed (code : String) :
    (∀ token ∈ (Scan.ofText code).tokens, token.StandsIn code.toList) ∧
      ∀ flaw ∈ (Scan.ofText code).flaw, flaw.PointsInto code.toList :=
  (scans_scan (Cursor.ofText code)).placed [] rfl

end Lisplet
