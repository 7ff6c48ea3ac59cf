import Lisplet.Token.Scan

/-!
The rules of reading tokens.

The reader of tokens is described once by rules, one for each way in which a token or a flaw can
come about; every other fact on tokens is a case analysis over these rules.

* `Spells`: the characters between the quotes of a string, and the text they stand for.
* `Lexes`: what stands at an offset, what comes of reading it, and where the cursor is left.
* `readHere_eq_iff`: the reader of a single token follows these rules and no others.
* `Scans`: the rules of reading all tokens, with the blanks between them.
* `scan_eq_iff`: the reader of all tokens follows these rules and no others.
-/

namespace Lisplet

/-! ### The characters of tokens -/

/-- A text that is over, or whose first character satisfies `stop`. -/
def Halts (stop : Char → Bool) (chars : List Char) : Prop :=
  ∀ char ∈ chars.head?, stop char = true

/-- Digits and points, the first of them a digit. -/
def IsNumeralText (chars : List Char) : Prop :=
  (∀ char ∈ chars.head?, char.isDigit = true) ∧ chars ≠ [] ∧ ∀ char ∈ chars, isNumeral char = true

instance (chars : List Char) : Decidable (IsNumeralText chars) :=
  @instDecidableAnd _ _ (Option.decidableForallMem chars.head?)
    (@instDecidableAnd _ _ inferInstance (List.decidableBAll _ chars))

/-- The characters of an identifier: none of them ends one, and the first begins neither a numeral
nor a string. -/
def IsNameText (chars : List Char) : Prop :=
  (∀ char ∈ chars.head?, char.isDigit = false ∧ char ≠ '"') ∧ chars ≠ [] ∧
    ∀ char ∈ chars, endsIdentifier char = false

theorem isNameText_iff (chars : List Char) :
    IsNameText chars ↔ (chars.head?.all fun char => !char.isDigit && char != '"') = true ∧
      chars ≠ [] ∧ chars.all (!endsIdentifier ·) = true := by
  rw [IsNameText, List.all_eq_true]
  cases chars <;> simp

instance instDecidableIsNameText (chars : List Char) : Decidable (IsNameText chars) :=
  decidable_of_iff _ (isNameText_iff chars).symm

/-- The characters between the quotes of a string, and the text they stand for. -/
inductive Spells : List Char → List Char → Prop
  | nil : Spells [] []
  | plain {char : Char} {raw text : List Char} (notQuote : char ≠ '"') (notSlash : char ≠ '\\')
      (rest : Spells raw text) : Spells (char :: raw) (char :: text)
  | escaped {code char : Char} {raw text : List Char} (stands : unescape? code = some char)
      (rest : Spells raw text) : Spells ('\\' :: code :: raw) (char :: text)

theorem takeWhile_append_of_halts {keep stop : Char → Bool} {body tail : List Char}
    (kept : ∀ char ∈ body, keep char = true) (halts : Halts stop tail)
    (apart : ∀ char, stop char = true → keep char = false) :
    (body ++ tail).takeWhile keep = body := by
  rw [List.takeWhile_append_of_pos kept]
  cases tail with
  | nil => simp
  | cons first rest => simp [apart first (halts first rfl)]

theorem halts_dropWhile (keep : Char → Bool) (chars : List Char) :
    Halts (!keep ·) (chars.dropWhile keep) := by
  intro char first
  have dropped := List.head?_dropWhile_not keep chars
  rw [Option.mem_def.mp first] at dropped
  simpa using dropped

theorem not_isNumeral_of_endsNumeral (char : Char) (ends : endsNumeral char = true) :
    isNumeral char = false := by
  have all : " ,)]\x7d\n\t".toList.all (!isNumeral ·) = true := by decide
  have member : char ∈ " ,)]\x7d\n\t".toList := by simpa [endsNumeral] using ends
  simpa using List.all_eq_true.mp all char member

theorem not_isNumeral_of_endsIdentifier (char : Char) (ends : endsIdentifier char = true) :
    isNumeral char = false := by
  have all : "[]\x7b\x7d() \n\t".toList.all (!isNumeral ·) = true := by decide
  have member : char ∈ "[]\x7b\x7d() \n\t".toList := by simpa [endsIdentifier] using ends
  simpa using List.all_eq_true.mp all char member

theorem isNumeral_of_isDigit {char : Char} (digit : char.isDigit = true) :
    isNumeral char = true := by
  simp [isNumeral, digit]

/-! ### Strings -/

theorem stringBody_plain {char : Char} (notQuote : char ≠ '"') (notSlash : char ≠ '\\')
    (offset : Nat) (rest : List Char) :
    Cursor.stringBody offset (char :: rest) =
      ((Cursor.stringBody (offset + 1) rest).1.map (char :: ·),
        (Cursor.stringBody (offset + 1) rest).2) :=
  Cursor.stringBody.eq_5 offset char rest notQuote (fun same _ => notSlash same)
    (fun _ _ same => absurd same notSlash)

theorem stringBody_escaped {code char : Char} (stands : unescape? code = some char)
    (offset : Nat) (rest : List Char) :
    Cursor.stringBody offset ('\\' :: code :: rest) =
      ((Cursor.stringBody (offset + 2) rest).1.map (char :: ·),
        (Cursor.stringBody (offset + 2) rest).2) := by
  simp only [Cursor.stringBody, stands]

/-- Behind the spelling of a text the reading goes on, and the text stands in front of its result.
-/
theorem Spells.stringBody_append {raw text : List Char} (spelled : Spells raw text) (offset : Nat)
    (tail : List Char) :
    Cursor.stringBody offset (raw ++ tail) =
      ((Cursor.stringBody (offset + raw.length) tail).1.map (text ++ ·),
        (Cursor.stringBody (offset + raw.length) tail).2) := by
  induction spelled generalizing offset with
  | nil =>
    show Cursor.stringBody offset tail =
      ((Cursor.stringBody offset tail).1.map ([] ++ ·), (Cursor.stringBody offset tail).2)
    rcases Cursor.stringBody offset tail with ⟨_ | _, after⟩ <;> rfl
  | @plain char raw text notQuote notSlash _ previous =>
    rw [List.cons_append, stringBody_plain notQuote notSlash, previous (offset + 1),
      List.length_cons, Nat.add_right_comm offset 1 raw.length, Nat.add_assoc]
    rcases Cursor.stringBody (offset + (raw.length + 1)) tail with ⟨_ | _, after⟩ <;> rfl
  | @escaped code char raw text stands _ previous =>
    rw [List.cons_append, List.cons_append, stringBody_escaped stands, previous (offset + 2),
      List.length_cons, List.length_cons, Nat.add_right_comm offset 2 raw.length, Nat.add_assoc]
    rcases Cursor.stringBody (offset + (raw.length + 2)) tail with ⟨_ | _, after⟩ <;> rfl

/-- Behind an opening quote stands the spelling of a text, and then a closing quote, the end, a lone
backslash at the end, or an escape that stands for nothing. -/
theorem exists_spells (chars : List Char) :
    ∃ raw text, Spells raw text ∧
      ((∃ tail, chars = raw ++ '"' :: tail) ∨ chars = raw ∨ chars = raw ++ ['\\'] ∨
        ∃ code tail, unescape? code = none ∧ chars = raw ++ '\\' :: code :: tail) := by
  fun_induction Cursor.stringBody 0 chars with
  | case1 => exact ⟨[], [], .nil, .inr (.inl rfl)⟩
  | case2 offset rest => exact ⟨[], [], .nil, .inl ⟨rest, rfl⟩⟩
  | case3 => exact ⟨[], [], .nil, .inr (.inr (.inl rfl))⟩
  | case4 offset code rest stands =>
    exact ⟨[], [], .nil, .inr (.inr (.inr ⟨code, rest, stands, rfl⟩))⟩
  | case5 offset code rest char stands result after _ previous =>
    obtain ⟨raw, text, spelled, ends⟩ := previous
    refine ⟨'\\' :: code :: raw, char :: text, .escaped stands spelled, ?_⟩
    simpa using ends
  | case6 offset char rest notQuote notLone notSlash result after _ previous =>
    obtain ⟨raw, text, spelled, ends⟩ := previous
    have noSlash : char ≠ '\\' := by
      rintro rfl
      cases rest with
      | nil => exact notLone rfl rfl
      | cons code rest => exact notSlash code rest rfl rfl
    refine ⟨char :: raw, char :: text, .plain notQuote noSlash spelled, ?_⟩
    simpa using ends

/-! ### Single tokens -/

/-- The rules of reading a token that begins at `offset`: the characters from there on, what comes
of them, and the cursor then. -/
inductive Lexes (offset : Nat) : List Char → Except Flaw Token → Cursor → Prop
  | atEnd : Lexes offset [] (.error (.at .endOfInput offset)) ⟨offset, []⟩
  | leftParen (tail : List Char) :
      Lexes offset ('(' :: tail) (.ok ⟨.leftParen, "(", offset, offset + 1⟩) ⟨offset + 1, tail⟩
  | rightParen (tail : List Char) :
      Lexes offset (')' :: tail) (.ok ⟨.rightParen, ")", offset, offset + 1⟩) ⟨offset + 1, tail⟩
  | number {body tail : List Char} (numeral : IsNumeralText body) (halts : Halts endsNumeral tail) :
      Lexes offset (body ++ tail)
        (.ok ⟨.number, String.ofList body, offset, offset + body.length⟩)
        ⟨offset + body.length, tail⟩
  | numberChar {body tail : List Char} {char : Char} (numeral : IsNumeralText body)
      (strange : isNumeral char = false) (goesOn : endsNumeral char = false) :
      Lexes offset (body ++ char :: tail) (.error (.at (.numberChar char) (offset + body.length)))
        ⟨offset + body.length, char :: tail⟩
  | string {raw text : List Char} (tail : List Char) (spelled : Spells raw text) :
      Lexes offset ('"' :: (raw ++ '"' :: tail))
        (.ok ⟨.string, String.ofList text, offset, offset + 1 + raw.length + 1⟩)
        ⟨offset + 1 + raw.length + 1, tail⟩
  | openString {raw text : List Char} (spelled : Spells raw text) :
      Lexes offset ('"' :: raw) (.error (.at .endOfInput (offset + 1 + raw.length)))
        ⟨offset + 1 + raw.length, []⟩
  | openEscape {raw text : List Char} (spelled : Spells raw text) :
      Lexes offset ('"' :: (raw ++ ['\\']))
        (.error (.at .endOfInput (offset + 1 + raw.length + 1)))
        ⟨offset + 1 + raw.length + 1, []⟩
  | notEscapable {raw text : List Char} {code : Char} (tail : List Char)
      (spelled : Spells raw text) (strange : unescape? code = none) :
      Lexes offset ('"' :: (raw ++ '\\' :: code :: tail))
        (.error (.at (.notEscapable code) (offset + 1 + raw.length)))
        ⟨offset + 1 + raw.length + 1, code :: tail⟩
  | identifier {body tail : List Char} (name : IsNameText body)
      (halts : Halts endsIdentifier tail) :
      Lexes offset (body ++ tail)
        (.ok ⟨.identifier, String.ofList body, offset, offset + body.length⟩)
        ⟨offset + body.length, tail⟩
  | unexpectedChar {char : Char} (tail : List Char) (ends : endsIdentifier char = true)
      (notLeft : char ≠ '(') (notRight : char ≠ ')') :
      Lexes offset (char :: tail) (.error (.at (.unexpectedChar char) offset))
        ⟨offset, char :: tail⟩

namespace Cursor

theorem readHere_of_digit {offset : Nat} {first : Char} {rest : List Char}
    (digit : first.isDigit = true) :
    readHere ⟨offset, first :: rest⟩ = readNumber ⟨offset, first :: rest⟩ := by
  have notLeft : first ≠ '(' := by rintro rfl; simp at digit
  have notRight : first ≠ ')' := by rintro rfl; simp at digit
  simp only [readHere, notLeft, notRight, digit, if_true, if_false]

theorem readHere_of_quote (offset : Nat) (rest : List Char) :
    readHere ⟨offset, '"' :: rest⟩ =
      ((stringBody (offset + 1) rest).1.map fun body =>
          ⟨.string, String.ofList body, offset, (stringBody (offset + 1) rest).2.offset⟩,
        (stringBody (offset + 1) rest).2) := by
  simp [readHere, readString]

theorem readHere_of_other {offset : Nat} {first : Char} {rest : List Char}
    (notLeft : first ≠ '(') (notRight : first ≠ ')') (notDigit : first.isDigit = false)
    (notQuote : first ≠ '"') :
    readHere ⟨offset, first :: rest⟩ =
      let body := (first :: rest).takeWhile (!endsIdentifier ·)
      if body.isEmpty then (.error (.at (.unexpectedChar first) offset), ⟨offset, first :: rest⟩)
      else (.ok ⟨.identifier, String.ofList body, offset, offset + body.length⟩,
        advance ⟨offset, first :: rest⟩ body.length) := by
  simp only [readHere, notLeft, notRight, notDigit, notQuote, if_false, readIdentifier?,
    Bool.false_eq_true]
  split <;> rfl

theorem readNumber_of_halts {offset : Nat} {body tail : List Char}
    (numerals : ∀ char ∈ body, isNumeral char = true) (halts : Halts endsNumeral tail) :
    readNumber ⟨offset, body ++ tail⟩ =
      (.ok ⟨.number, String.ofList body, offset, offset + body.length⟩,
        ⟨offset + body.length, tail⟩) := by
  have taken : (body ++ tail).takeWhile isNumeral = body :=
    takeWhile_append_of_halts numerals halts not_isNumeral_of_endsNumeral
  simp only [readNumber, taken, advance, List.drop_left]
  cases tail with
  | nil => rfl
  | cons char rest =>
    have ends : endsNumeral char = true := halts char rfl
    simp only [ends, if_true]

theorem readNumber_of_strange {offset : Nat} {body tail : List Char} {char : Char}
    (numerals : ∀ char ∈ body, isNumeral char = true) (strange : isNumeral char = false)
    (goesOn : endsNumeral char = false) :
    readNumber ⟨offset, body ++ char :: tail⟩ =
      (.error (.at (.numberChar char) (offset + body.length)),
        ⟨offset + body.length, char :: tail⟩) := by
  have taken : (body ++ char :: tail).takeWhile isNumeral = body := by
    rw [List.takeWhile_append_of_pos numerals]
    simp [strange]
  simp only [readNumber, taken, advance, List.drop_left, goesOn, Bool.false_eq_true, if_false]

end Cursor

theorem IsNumeralText.exists_cons {chars : List Char} (numeral : IsNumeralText chars) :
    ∃ first rest, chars = first :: rest ∧ first.isDigit = true := by
  obtain ⟨digit, nonempty, _⟩ := numeral
  obtain ⟨first, rest, rfl⟩ := List.exists_cons_of_ne_nil nonempty
  exact ⟨first, rest, rfl, digit first rfl⟩

theorem IsNameText.exists_cons {chars : List Char} (name : IsNameText chars) :
    ∃ first rest, chars = first :: rest ∧ first.isDigit = false ∧ first ≠ '"' ∧
      endsIdentifier first = false := by
  obtain ⟨begins, nonempty, inside⟩ := name
  obtain ⟨first, rest, rfl⟩ := List.exists_cons_of_ne_nil nonempty
  exact ⟨first, rest, rfl, (begins first rfl).1, (begins first rfl).2, inside first (by simp)⟩

/-- A rule that applies is the one that is followed. -/
theorem Lexes.readHere_eq {offset : Nat} {rest : List Char} {result : Except Flaw Token}
    {after : Cursor} (lexes : Lexes offset rest result after) :
    Cursor.readHere ⟨offset, rest⟩ = (result, after) := by
  cases lexes with
  | atEnd => rfl
  | leftParen tail => rfl
  | rightParen tail => rfl
  | @number body tail numeral halts =>
    obtain ⟨first, rest, rfl, digit⟩ := numeral.exists_cons
    rw [List.cons_append, Cursor.readHere_of_digit digit, ← List.cons_append]
    exact Cursor.readNumber_of_halts numeral.2.2 halts
  | @numberChar body tail char numeral strange goesOn =>
    obtain ⟨first, rest, rfl, digit⟩ := numeral.exists_cons
    rw [List.cons_append, Cursor.readHere_of_digit digit, ← List.cons_append]
    exact Cursor.readNumber_of_strange numeral.2.2 strange goesOn
  | string tail spelled =>
    simp [Cursor.readHere_of_quote, spelled.stringBody_append, Cursor.stringBody, Except.map]
  | openString spelled =>
    have read := spelled.stringBody_append (offset + 1) []
    rw [List.append_nil] at read
    simp [Cursor.readHere_of_quote, read, Cursor.stringBody, Except.map]
  | openEscape spelled =>
    simp [Cursor.readHere_of_quote, spelled.stringBody_append, Cursor.stringBody, Except.map]
  | notEscapable tail spelled strange =>
    simp [Cursor.readHere_of_quote, spelled.stringBody_append, Cursor.stringBody, Except.map,
      strange]
  | @identifier body tail name halts =>
    obtain ⟨first, rest, rfl, notDigit, notQuote, inside⟩ := name.exists_cons
    have notLeft : first ≠ '(' := by rintro rfl; exact absurd inside (by decide)
    have notRight : first ≠ ')' := by rintro rfl; exact absurd inside (by decide)
    have taken : (first :: rest ++ tail).takeWhile (!endsIdentifier ·) = first :: rest :=
      takeWhile_append_of_halts (fun char member => by simp [name.2.2 char member]) halts
        (by simp)
    rw [List.cons_append, Cursor.readHere_of_other notLeft notRight notDigit notQuote,
      ← List.cons_append, taken]
    simp [Cursor.advance]
  | @unexpectedChar char tail ends notLeft notRight =>
    have notDigit : char.isDigit = false := by
      cases digit : char.isDigit with
      | false => rfl
      | true =>
        have numeral := isNumeral_of_isDigit digit
        rw [not_isNumeral_of_endsIdentifier char ends] at numeral
        cases numeral
    have notQuote : char ≠ '"' := by rintro rfl; exact absurd ends (by decide)
    rw [Cursor.readHere_of_other notLeft notRight notDigit notQuote]
    simp [ends]

theorem exists_lexes_of_digit (offset : Nat) {first : Char} (digit : first.isDigit = true)
    (rest : List Char) : ∃ result after, Lexes offset (first :: rest) result after := by
  have kept : isNumeral first = true := isNumeral_of_isDigit digit
  have numeral : IsNumeralText ((first :: rest).takeWhile isNumeral) := by
    refine ⟨by simp [kept, digit], by simp [kept], fun char member => ?_⟩
    exact List.all_eq_true.mp List.all_takeWhile char member
  have whole := List.takeWhile_append_dropWhile (p := isNumeral) (l := first :: rest)
  cases tail : (first :: rest).dropWhile isNumeral with
  | nil =>
    rw [← whole, tail]
    exact ⟨_, _, .number numeral (by simp [Halts])⟩
  | cons char more =>
    have strange : isNumeral char = false := by
      have halts := halts_dropWhile isNumeral (first :: rest) char (by rw [tail]; rfl)
      simpa using halts
    rw [← whole, tail]
    by_cases ends : endsNumeral char
    · exact ⟨_, _, .number numeral (by simpa [Halts] using ends)⟩
    · exact ⟨_, _, .numberChar numeral strange (by simpa using ends)⟩

theorem exists_lexes_of_quote (offset : Nat) (rest : List Char) :
    ∃ result after, Lexes offset ('"' :: rest) result after := by
  obtain ⟨raw, text, spelled, ⟨tail, rfl⟩ | rfl | rfl | ⟨code, tail, strange, rfl⟩⟩ :=
    exists_spells rest
  · exact ⟨_, _, .string tail spelled⟩
  · exact ⟨_, _, .openString spelled⟩
  · exact ⟨_, _, .openEscape spelled⟩
  · exact ⟨_, _, .notEscapable tail spelled strange⟩

theorem exists_lexes_of_name (offset : Nat) {first : Char} (notDigit : first.isDigit = false)
    (notQuote : first ≠ '"') (inside : endsIdentifier first = false) (rest : List Char) :
    ∃ result after, Lexes offset (first :: rest) result after := by
  have name : IsNameText ((first :: rest).takeWhile (!endsIdentifier ·)) := by
    refine ⟨by simp [inside, notDigit, notQuote], by simp [inside], fun char member => ?_⟩
    have kept := List.all_eq_true.mp List.all_takeWhile char member
    simpa using kept
  have halts : Halts endsIdentifier ((first :: rest).dropWhile (!endsIdentifier ·)) := by
    simpa using halts_dropWhile (!endsIdentifier ·) (first :: rest)
  rw [← List.takeWhile_append_dropWhile (p := (!endsIdentifier ·)) (l := first :: rest)]
  exact ⟨_, _, .identifier name halts⟩

/-- Some rule applies. -/
theorem exists_lexes (offset : Nat) (rest : List Char) :
    ∃ result after, Lexes offset rest result after := by
  cases rest with
  | nil => exact ⟨_, _, .atEnd⟩
  | cons first rest =>
    by_cases left : first = '('
    · subst left
      exact ⟨_, _, .leftParen rest⟩
    by_cases right : first = ')'
    · subst right
      exact ⟨_, _, .rightParen rest⟩
    by_cases digit : first.isDigit = true
    · exact exists_lexes_of_digit offset digit rest
    by_cases quote : first = '"'
    · subst quote
      exact exists_lexes_of_quote offset rest
    by_cases ends : endsIdentifier first = true
    · exact ⟨_, _, .unexpectedChar rest ends left right⟩
    rw [Bool.not_eq_true] at digit ends
    exact exists_lexes_of_name offset digit quote ends rest

/-- The reader of a token follows the rules, and no others. -/
theorem readHere_eq_iff {cursor after : Cursor} {result : Except Flaw Token} :
    cursor.readHere = (result, after) ↔ Lexes cursor.offset cursor.rest result after := by
  refine ⟨fun read => ?_, fun lexes => lexes.readHere_eq⟩
  obtain ⟨result', after', lexes⟩ := exists_lexes cursor.offset cursor.rest
  have same := lexes.readHere_eq.symm.trans read
  cases same
  exact lexes

/-! ### All tokens -/

/-- A text that goes on with a character other than a blank. -/
def BeginsToken (rest : List Char) : Prop :=
  ∃ first tail, rest = first :: tail ∧ isSpacing first = false

/-- The rules of reading all tokens: blanks and then the end, a flaw, or a token and what follows.
-/
inductive Scans : Cursor → Scan → Prop
  | ended {offset : Nat} {blanks : List Char} (blank : ∀ char ∈ blanks, isSpacing char = true) :
      Scans ⟨offset, blanks⟩ ⟨[], none, ⟨offset + blanks.length, []⟩⟩
  | flawed {offset : Nat} {blanks rest : List Char} {flaw : Flaw} {after : Cursor}
      (blank : ∀ char ∈ blanks, isSpacing char = true) (begins : BeginsToken rest)
      (lexes : Lexes (offset + blanks.length) rest (.error flaw) after) :
      Scans ⟨offset, blanks ++ rest⟩ ⟨[], some flaw, after⟩
  | token {offset : Nat} {blanks rest : List Char} {token : Token} {after : Cursor} {scan : Scan}
      (blank : ∀ char ∈ blanks, isSpacing char = true) (begins : BeginsToken rest)
      (lexes : Lexes (offset + blanks.length) rest (.ok token) after) (more : Scans after scan) :
      Scans ⟨offset, blanks ++ rest⟩ (scan.cons token)

namespace Cursor

theorem skipSpacing_append {offset : Nat} {blanks rest : List Char}
    (blank : ∀ char ∈ blanks, isSpacing char = true) (halts : Halts (!isSpacing ·) rest) :
    skipSpacing ⟨offset, blanks ++ rest⟩ = ⟨offset + blanks.length, rest⟩ := by
  have taken : (blanks ++ rest).takeWhile isSpacing = blanks :=
    takeWhile_append_of_halts blank halts (by simp)
  simp only [skipSpacing, taken, advance, List.drop_left]

theorem skipSpacing_of_begins {offset : Nat} {blanks rest : List Char}
    (blank : ∀ char ∈ blanks, isSpacing char = true) (begins : BeginsToken rest) :
    skipSpacing ⟨offset, blanks ++ rest⟩ = ⟨offset + blanks.length, rest⟩ := by
  obtain ⟨first, tail, rfl, notBlank⟩ := begins
  exact skipSpacing_append blank (by simpa [Halts] using notBlank)

theorem skipSpacing_of_blank {offset : Nat} {blanks : List Char}
    (blank : ∀ char ∈ blanks, isSpacing char = true) :
    skipSpacing ⟨offset, blanks⟩ = ⟨offset + blanks.length, []⟩ := by
  have skipped : skipSpacing ⟨offset, blanks ++ []⟩ = ⟨offset + blanks.length, []⟩ :=
    skipSpacing_append blank (by simp [Halts])
  rwa [List.append_nil] at skipped

/-- The blanks in front of the next token, and what stands behind them. -/
theorem exists_blanks (cursor : Cursor) :
    ∃ blanks rest, cursor.rest = blanks ++ rest ∧ (∀ char ∈ blanks, isSpacing char = true) ∧
      (rest = [] ∨ BeginsToken rest) := by
  refine ⟨cursor.rest.takeWhile isSpacing, cursor.rest.dropWhile isSpacing,
    List.takeWhile_append_dropWhile.symm, fun char member => ?_, ?_⟩
  · exact List.all_eq_true.mp List.all_takeWhile char member
  · cases behind : cursor.rest.dropWhile isSpacing with
    | nil => exact .inl rfl
    | cons first tail =>
      have halts := halts_dropWhile isSpacing cursor.rest first (by rw [behind]; rfl)
      exact .inr ⟨first, tail, rfl, by simpa using halts⟩

theorem scan_of_blank {offset : Nat} {blanks : List Char}
    (blank : ∀ char ∈ blanks, isSpacing char = true) :
    scan ⟨offset, blanks⟩ = ⟨[], none, ⟨offset + blanks.length, []⟩⟩ := by
  rw [scan]
  simp [atEnd, skipSpacing_of_blank blank]

theorem atEnd_of_begins {offset : Nat} {blanks rest : List Char}
    (blank : ∀ char ∈ blanks, isSpacing char = true) (begins : BeginsToken rest) :
    atEnd ⟨offset, blanks ++ rest⟩ = false := by
  rw [atEnd, skipSpacing_of_begins blank begins]
  obtain ⟨first, tail, rfl, _⟩ := begins
  rfl

theorem next_of_lexes {offset : Nat} {blanks rest : List Char} {result : Except Flaw Token}
    {after : Cursor} (blank : ∀ char ∈ blanks, isSpacing char = true) (begins : BeginsToken rest)
    (lexes : Lexes (offset + blanks.length) rest result after) :
    next ⟨offset, blanks ++ rest⟩ = (result, after) := by
  rw [next, skipSpacing_of_begins blank begins]
  exact lexes.readHere_eq

end Cursor

/-- A rule that applies is the one that is followed. -/
theorem Scans.scan_eq {cursor : Cursor} {scan : Scan} (scans : Scans cursor scan) :
    cursor.scan = scan := by
  induction scans with
  | ended blank => exact Cursor.scan_of_blank blank
  | flawed blank begins lexes =>
    rw [Cursor.scan, Cursor.atEnd_of_begins blank begins]
    simp only [Bool.false_eq_true, if_false]
    split
    · rename_i read
      cases (Cursor.next_of_lexes blank begins lexes).symm.trans read
      rfl
    · rename_i read
      cases (Cursor.next_of_lexes blank begins lexes).symm.trans read
  | token blank begins lexes more previous =>
    rw [Cursor.scan, Cursor.atEnd_of_begins blank begins]
    simp only [Bool.false_eq_true, if_false]
    split
    · rename_i read
      cases (Cursor.next_of_lexes blank begins lexes).symm.trans read
    · rename_i read
      cases (Cursor.next_of_lexes blank begins lexes).symm.trans read
      rw [previous]

/-- Some rule applies. Every token leaves less text behind, so the rules come to an end. -/
theorem exists_scans (cursor : Cursor) : ∃ scan, Scans cursor scan := by
  obtain ⟨offset, chars⟩ := cursor
  obtain ⟨blanks, rest, rfl, blank, rfl | begins⟩ := Cursor.exists_blanks ⟨offset, chars⟩
  · rw [List.append_nil]
    exact ⟨_, .ended blank⟩
  · obtain ⟨result, after, lexes⟩ := exists_lexes (offset + blanks.length) rest
    cases result with
    | error flaw => exact ⟨_, .flawed blank begins lexes⟩
    | ok token =>
      have shorter := Cursor.next_shorter (Cursor.next_of_lexes blank begins lexes)
      obtain ⟨scan, more⟩ := exists_scans after
      exact ⟨_, .token blank begins lexes more⟩
termination_by cursor.rest.length

/-- The reader of all tokens follows the rules, and no others. -/
theorem scan_eq_iff {cursor : Cursor} {scan : Scan} :
    cursor.scan = scan ↔ Scans cursor scan := by
  refine ⟨fun read => ?_, fun scans => scans.scan_eq⟩
  obtain ⟨scan', scans⟩ := exists_scans cursor
  rw [← read, scans.scan_eq]
  exact scans

theorem scans_scan (cursor : Cursor) : Scans cursor cursor.scan :=
  scan_eq_iff.mp rfl

/-! ### Where tokens and flaws stand -/

/-- The characters left behind a token or a flaw are the last ones of those that were there. -/
theorem Lexes.suffix {offset : Nat} {rest : List Char} {result : Except Flaw Token}
    {after : Cursor} (lexes : Lexes offset rest result after) : after.rest <:+ rest := by
  cases lexes with
  | atEnd => exact List.suffix_rfl
  | leftParen tail => exact List.suffix_cons _ _
  | rightParen tail => exact List.suffix_cons _ _
  | number _ _ => exact List.suffix_append _ _
  | numberChar _ _ _ => exact List.suffix_append _ _
  | @string raw _ tail _ => exact ⟨'"' :: (raw ++ ['"']), by simp⟩
  | openString _ => exact List.nil_suffix
  | openEscape _ => exact List.nil_suffix
  | @notEscapable raw _ _ tail _ _ => exact ⟨'"' :: (raw ++ ['\\']), by simp⟩
  | identifier _ _ => exact List.suffix_append _ _
  | unexpectedChar tail _ _ _ => exact List.suffix_rfl

/-- A token that is read moves the cursor towards the same end of the text. -/
theorem Lexes.end_eq {offset : Nat} {rest : List Char} {token : Token} {after : Cursor}
    (lexes : Lexes offset rest (.ok token) after) :
    after.offset + after.rest.length = offset + rest.length := by
  cases lexes <;> simp only [List.length_cons, List.length_append] <;> omega

theorem Lexes.end_eq_of_blanks {offset : Nat} {blanks rest : List Char} {token : Token}
    {after : Cursor} (lexes : Lexes (offset + blanks.length) rest (.ok token) after) :
    after.offset + after.rest.length = offset + (blanks ++ rest).length := by
  rw [lexes.end_eq, List.length_append, Nat.add_assoc]

theorem Lexes.start_eq {offset : Nat} {rest : List Char} {token : Token} {after : Cursor}
    (lexes : Lexes offset rest (.ok token) after) : token.start = offset := by
  cases lexes <;> rfl

theorem Lexes.flaw_start_le {offset : Nat} {rest : List Char} {flaw : Flaw} {after : Cursor}
    (lexes : Lexes offset rest (.error flaw) after) : flaw.start ≤ offset + rest.length := by
  cases lexes <;>
    simp only [Flaw.at, List.length_cons, List.length_append, List.length_nil] <;> omega

/-- Tokens and flaws begin inside the text or at its end. -/
theorem Scans.start_le {cursor : Cursor} {scan : Scan} (scans : Scans cursor scan) :
    (∀ token ∈ scan.tokens, token.start ≤ cursor.offset + cursor.rest.length) ∧
      ∀ flaw ∈ scan.flaw, flaw.start ≤ cursor.offset + cursor.rest.length := by
  induction scans with
  | ended => simp
  | @flawed offset blanks rest flaw after blank begins lexes =>
    have bound := lexes.flaw_start_le
    simp only [List.not_mem_nil, Option.mem_def, Option.some.injEq, forall_eq', List.length_append]
    exact ⟨by simp, by omega⟩
  | @token offset blanks rest token after scan blank begins lexes more previous =>
    rw [lexes.end_eq_of_blanks] at previous
    refine ⟨fun other member => ?_, previous.2⟩
    obtain rfl | member := List.mem_cons.mp member
    · show other.start ≤ offset + (blanks ++ rest).length
      rw [lexes.start_eq, List.length_append]
      omega
    · exact previous.1 other member

/-- A text without a flaw is read up to its end. -/
theorem Scans.cursor_of_flawless {cursor : Cursor} {scan : Scan} (scans : Scans cursor scan)
    (flawless : scan.flaw = none) : scan.cursor = ⟨cursor.offset + cursor.rest.length, []⟩ := by
  induction scans with
  | ended => rfl
  | flawed => cases flawless
  | @token offset blanks rest token after scan blank begins lexes more previous =>
    rw [lexes.end_eq_of_blanks] at previous
    exact previous flawless

end Lisplet
