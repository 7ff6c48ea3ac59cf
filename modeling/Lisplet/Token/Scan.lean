import Lisplet.Token.Basic

/-!
Cutting a text into tokens.

A `Cursor` is an offset and the characters that are left from there. Every reader takes a cursor and
gives a token or a flaw, and in both cases the cursor it ends at; a cursor never moves back.

* `Cursor.next`: the next token.
* `Cursor.next_shorter`: a token that was read leaves less text behind.
* `Cursor.scan`: all tokens from a cursor on, up to the end or the first flaw.
-/

namespace Lisplet

/-- The blanks between tokens. -/
def isSpacing (char : Char) : Bool :=
  char = ' ' || char = '\t' || char = '\n'

/-- The characters a numeral is made of. -/
def isNumeral (char : Char) : Bool :=
  char.isDigit || char = '.'

/-- The characters that end a numeral. -/
def endsNumeral (char : Char) : Bool :=
  " ,)]\x7d\n\t".toList.contains char

/-- The characters that end an identifier. -/
def endsIdentifier (char : Char) : Bool :=
  "[]\x7b\x7d() \n\t".toList.contains char

/-- The character that an escape stands for, by the character behind the backslash. -/
def unescape? (char : Char) : Option Char :=
  if char = 'n' then some '\n'
  else if char = 't' then some '\t'
  else if char = '\\' then some '\\'
  else none

/-- A place in a text: the offset and the characters left from there. -/
structure Cursor where
  offset : Nat
  rest : List Char
  deriving DecidableEq, Repr

namespace Cursor

/-- The start of a text. -/
def ofText (text : String) : Cursor :=
  ⟨0, text.toList⟩

/-- Move over the first `count` characters that are left. -/
def advance (cursor : Cursor) (count : Nat) : Cursor :=
  ⟨cursor.offset + count, cursor.rest.drop count⟩

/-- Move over the blanks in front of the next token. -/
def skipSpacing (cursor : Cursor) : Cursor :=
  cursor.advance (cursor.rest.takeWhile isSpacing).length

/-- Only blanks are left. -/
def atEnd (cursor : Cursor) : Bool :=
  cursor.skipSpacing.rest.isEmpty

/-- Read a numeral: digits and points up to the end or a character that ends a numeral. -/
def readNumber (cursor : Cursor) : Except Flaw Token × Cursor :=
  let body := cursor.rest.takeWhile isNumeral
  let after := cursor.advance body.length
  let token : Token := ⟨.number, String.ofList body, cursor.offset, after.offset⟩
  match after.rest with
  | [] => (.ok token, after)
  | char :: _ =>
    if endsNumeral char then (.ok token, after)
    else (.error (.at (.numberChar char) after.offset), after)

/-- Read an identifier: everything up to a character that ends one. Nothing can be read at the end
of the text, where there is not even a character to point at. -/
def readIdentifier? (cursor : Cursor) : Option (Except Flaw Token × Cursor) :=
  match cursor.rest with
  | [] => none
  | first :: _ =>
    let body := cursor.rest.takeWhile (!endsIdentifier ·)
    let after := cursor.advance body.length
    if body.isEmpty then some (.error (.at (.unexpectedChar first) cursor.offset), cursor)
    else some (.ok ⟨.identifier, String.ofList body, cursor.offset, after.offset⟩, after)

/-- The text that a string stands for, from behind its opening quote at `offset` on, and the cursor
behind its closing quote. -/
def stringBody (offset : Nat) : List Char → Except Flaw (List Char) × Cursor
  | [] => (.error (.at .endOfInput offset), ⟨offset, []⟩)
  | '"' :: rest => (.ok [], ⟨offset + 1, rest⟩)
  | ['\\'] => (.error (.at .endOfInput (offset + 1)), ⟨offset + 1, []⟩)
  | '\\' :: escaped :: rest =>
    match unescape? escaped with
    | none => (.error (.at (.notEscapable escaped) offset), ⟨offset + 1, escaped :: rest⟩)
    | some char =>
      let (result, after) := stringBody (offset + 2) rest
      (result.map (char :: ·), after)
  | char :: rest =>
    let (result, after) := stringBody (offset + 1) rest
    (result.map (char :: ·), after)

/-- Read a string whose opening quote stands at the cursor. -/
def readString (cursor : Cursor) : Except Flaw Token × Cursor :=
  let (result, after) := stringBody (cursor.offset + 1) (cursor.rest.drop 1)
  (result.map fun body => ⟨.string, String.ofList body, cursor.offset, after.offset⟩, after)

/-- Read the token that begins at the cursor, without skipping blanks. -/
def readHere (cursor : Cursor) : Except Flaw Token × Cursor :=
  match cursor.rest with
  | [] => (.error (.at .endOfInput cursor.offset), cursor)
  | first :: _ =>
    if first = '(' then
      (.ok ⟨.leftParen, "(", cursor.offset, cursor.offset + 1⟩, cursor.advance 1)
    else if first = ')' then
      (.ok ⟨.rightParen, ")", cursor.offset, cursor.offset + 1⟩, cursor.advance 1)
    else if first.isDigit then cursor.readNumber
    else if first = '"' then cursor.readString
    else cursor.readIdentifier?.getD (.error (.at .endOfInput cursor.offset), cursor)

/-- Skip blanks and read the next token. -/
def next (cursor : Cursor) : Except Flaw Token × Cursor :=
  cursor.skipSpacing.readHere

/-! ### A token that was read leaves less text behind -/

theorem length_advance (cursor : Cursor) (count : Nat) :
    (cursor.advance count).rest.length = cursor.rest.length - count := by
  simp [advance]

theorem length_skipSpacing_le (cursor : Cursor) :
    cursor.skipSpacing.rest.length ≤ cursor.rest.length := by
  simp only [skipSpacing, length_advance]
  omega

theorem length_stringBody_le (offset : Nat) (chars : List Char) :
    (stringBody offset chars).2.rest.length ≤ chars.length := by
  fun_induction stringBody offset chars <;> simp_all <;> omega

theorem length_takeWhile_pos {first : Char} {rest : List Char} {keep : Char → Bool}
    (kept : keep first = true) : 0 < ((first :: rest).takeWhile keep).length := by
  simp [kept]

theorem readHere_shorter {cursor after : Cursor} {token : Token}
    (read : cursor.readHere = (.ok token, after)) : after.rest.length < cursor.rest.length := by
  rcases cursor with ⟨offset, _ | ⟨first, rest⟩⟩
  · simp [readHere] at read
  · simp only [readHere] at read
    split at read
    · simp only [Prod.mk.injEq] at read
      simp [← read.2, advance]
    · split at read
      · simp only [Prod.mk.injEq] at read
        simp [← read.2, advance]
      · split at read
        · rename_i digit
          have positive : 0 < ((first :: rest).takeWhile isNumeral).length :=
            length_takeWhile_pos (by simp [isNumeral, digit])
          have same : after = advance ⟨offset, first :: rest⟩
              ((first :: rest).takeWhile isNumeral).length := by
            simp only [readNumber] at read
            split at read
            · simp only [Prod.mk.injEq] at read
              exact read.2.symm
            · split at read <;> simp only [Prod.mk.injEq] at read
              · exact read.2.symm
              · exact read.2.symm
          rw [same, length_advance]
          simp only [List.length_cons]
          omega
        · split at read
          · simp only [readString, List.drop_succ_cons, List.drop_zero, Prod.mk.injEq] at read
            rw [← read.2]
            exact Nat.lt_succ_of_le (length_stringBody_le _ _)
          · simp only [readIdentifier?] at read
            split at read
            · simp at read
            · rename_i nonempty
              simp only [Option.getD_some, Prod.mk.injEq] at read
              rw [← read.2, length_advance]
              have positive : 0 < ((first :: rest).takeWhile (!endsIdentifier ·)).length := by
                cases body : (first :: rest).takeWhile (!endsIdentifier ·) with
                | nil => simp [body] at nonempty
                | cons => simp
              simp only [List.length_cons]
              omega

/-- A token that was read leaves less text behind. -/
theorem next_shorter {cursor after : Cursor} {token : Token}
    (read : cursor.next = (.ok token, after)) : after.rest.length < cursor.rest.length :=
  Nat.lt_of_lt_of_le (readHere_shorter read) (length_skipSpacing_le cursor)

end Cursor

/-- The tokens of a text, the flaw that ended the reading if there is one, and the cursor then. -/
structure Scan where
  tokens : List Token
  flaw : Option Flaw
  cursor : Cursor
  deriving DecidableEq, Repr

/-- Put a token in front of a scan. -/
def Scan.cons (token : Token) (scan : Scan) : Scan :=
  { scan with tokens := token :: scan.tokens }

/-- All tokens from a cursor on, up to the end of the text or the first flaw. -/
def Cursor.scan (cursor : Cursor) : Scan :=
  if cursor.atEnd then ⟨[], none, cursor.skipSpacing⟩
  else
    match _read : cursor.next with
    | (.error flaw, after) => ⟨[], some flaw, after⟩
    | (.ok token, after) => (Cursor.scan after).cons token
termination_by cursor.rest.length
decreasing_by exact Cursor.next_shorter _read

/-- All tokens of a text. -/
def Scan.ofText (text : String) : Scan :=
  (Cursor.ofText text).scan

end Lisplet
