import Lisplet.Expr.Printer
import Lisplet.Proofs.Legibility
import Lisplet.Proofs.SingleForms

/-!
Printing and reading back.

The printer writes every atom so that it is cut out as one token, whatever stands behind it in a
list, and every list as its items between parentheses; reading makes the same form of it.

* `Delivers`: a text whose tokens add given items to any nest that has room for them.
* `delivers_print`: the printed form of a readable expression delivers that expression.
* `Expr.print_read_round_trip`: readable expressions are read back as they were printed, and what
  was read is readable but for its floats.
-/

namespace Lisplet

/-! ### Texts that deliver items -/

/-- Add items to the innermost sequence. -/
def Nest.pushAll (nest : Nest) (items : List Expr) : Nest :=
  ⟨items.reverse ++ nest.items, nest.outer⟩

theorem Nest.pushAll_append (nest : Nest) (items more : List Expr) :
    nest.pushAll (items ++ more) = (nest.pushAll items).pushAll more := by
  simp only [pushAll, List.reverse_append, List.append_assoc]

/-- At any offset, the tokens of a text have no flaw, and they add the items to any nest that has
room for so many levels. -/
def Delivers (chars : List Char) (levels : Nat) (items : List Expr) : Prop :=
  ∀ offset, (Cursor.scan ⟨offset, chars⟩).flaw = none ∧
    ∀ (limit : Int) (nest : Nest), HasRoom limit nest.depth levels →
      nest.feedAll limit (Cursor.scan ⟨offset, chars⟩).tokens = (nest.pushAll items, none)

theorem delivers_nil : Delivers [] 0 [] := by
  intro offset
  have nothing : Cursor.scan ⟨offset, []⟩ = ⟨[], none, ⟨offset, []⟩⟩ :=
    Cursor.scan_of_blank (by simp)
  rw [nothing]
  exact ⟨rfl, fun _ _ _ => rfl⟩

/-- Items with a text behind them that ends their last token, and the items of that text. -/
theorem Delivers.append {chars more : List Char} {levels levelsMore : Nat}
    {items itemsMore : List Expr} (first : Delivers chars levels items)
    (second : Delivers more levelsMore itemsMore) (ends : EndsTokens more) :
    Delivers (chars ++ more) (max levels levelsMore) (items ++ itemsMore) := by
  intro offset
  obtain ⟨flawless, feeds⟩ := first offset
  obtain ⟨flawlessMore, feedsMore⟩ := second (offset + chars.length)
  have joined : Cursor.scan ⟨offset, chars ++ more⟩ =
      (Cursor.scan ⟨offset + chars.length, more⟩).prepend (Cursor.scan ⟨offset, chars⟩).tokens :=
    ((scans_scan ⟨offset, chars⟩).followedBy_of_flawless flawless ends (scans_scan _)).scan_eq
  rw [joined]
  refine ⟨flawlessMore, fun limit nest room => ?_⟩
  have fed := feeds limit nest (room.of_le (Nat.le_max_left _ _))
  have fedMore := feedsMore limit (nest.pushAll items) (room.of_le (Nat.le_max_right _ _))
  rw [Scan.prepend, Nest.feedAll_append, fed, Nest.pushAll_append]
  exact fedMore

theorem Delivers.behind_space {chars : List Char} {levels : Nat} {items : List Expr}
    (delivers : Delivers chars levels items) : Delivers (' ' :: chars) levels items := by
  intro offset
  have blank : ∀ char ∈ [' '], isSpacing char = true := by simp [isSpacing]
  have same : Cursor.scan ⟨offset, ' ' :: chars⟩ = Cursor.scan ⟨offset + 1, chars⟩ :=
    (Scans.behind_blanks blank (scans_scan ⟨offset + 1, chars⟩)).scan_eq
  rw [same]
  exact delivers (offset + 1)

/-- A token with nothing in front of it. -/
theorem scan_of_lexes {offset : Nat} {chars : List Char} {token : Token} {after : Cursor}
    (begins : BeginsToken chars) (lexes : Lexes offset chars (.ok token) after) :
    Cursor.scan ⟨offset, chars⟩ = after.scan.cons token := by
  have blank : ∀ char ∈ ([] : List Char), isSpacing char = true := by simp
  have scans : Scans ⟨offset, [] ++ chars⟩ (after.scan.cons token) :=
    .token blank begins lexes (scans_scan after)
  exact scans.scan_eq

/-- An atom that is cut out as one token. -/
theorem delivers_of_token {chars : List Char} {item : Expr} (begins : BeginsToken chars)
    (token : ∀ offset, ∃ token : Token, token.atom? = some item ∧
      Lexes offset chars (.ok token) ⟨offset + chars.length, []⟩) : Delivers chars 0 [item] := by
  intro offset
  obtain ⟨token, denotes, lexes⟩ := token offset
  rw [scan_of_lexes begins lexes, Cursor.scan_of_blank (by simp)]
  refine ⟨rfl, fun limit nest _ => ?_⟩
  have fed : nest.feed limit token = .ok (nest.push item) := (Nest.Feeds.atom denotes).feed_eq
  simp only [Scan.cons, Nest.feedAll, fed]
  rfl

/-- Parentheses add one token on either side. -/
theorem scan_parenthesized {offset : Nat} {chars : List Char}
    (flawless : (Cursor.scan ⟨offset + 1, chars⟩).flaw = none) :
    ∃ left right : Token, left.shape = .leftParen ∧ right.shape = .rightParen ∧
      (Cursor.scan ⟨offset, '(' :: (chars ++ [')'])⟩).flaw = none ∧
      (Cursor.scan ⟨offset, '(' :: (chars ++ [')'])⟩).tokens =
        left :: ((Cursor.scan ⟨offset + 1, chars⟩).tokens ++ [right]) := by
  let left : Token := ⟨.leftParen, "(", offset, offset + 1⟩
  let right : Token :=
    ⟨.rightParen, ")", offset + 1 + chars.length, offset + 1 + chars.length + 1⟩
  have opening : Cursor.scan ⟨offset, '(' :: (chars ++ [')'])⟩ =
      (Cursor.scan ⟨offset + 1, chars ++ [')']⟩).cons left :=
    scan_of_lexes ⟨'(', _, rfl, rfl⟩ (.leftParen _)
  have closing : Cursor.scan ⟨offset + 1 + chars.length, [')']⟩ =
      ⟨[right], none, ⟨offset + 1 + chars.length + 1, []⟩⟩ := by
    rw [scan_of_lexes ⟨')', _, rfl, rfl⟩ (.rightParen []), Cursor.scan_of_blank (by simp)]
    rfl
  have inside : Cursor.scan ⟨offset + 1, chars ++ [')']⟩ =
      (Cursor.scan ⟨offset + 1 + chars.length, [')']⟩).prepend
        (Cursor.scan ⟨offset + 1, chars⟩).tokens :=
    ((scans_scan ⟨offset + 1, chars⟩).followedBy_of_flawless flawless
      (endsTokens_cons [] (by decide) (by decide)) (scans_scan _)).scan_eq
  rw [opening, inside, closing]
  exact ⟨left, right, rfl, rfl, rfl, rfl⟩

/-- The items go to the list that the first token opens, and the last token closes it. -/
theorem Nest.feedAll_parenthesized {limit : Int} {nest : Nest} {left right : Token}
    {tokens : List Token} {items : List Expr} (leftShape : left.shape = .leftParen)
    (rightShape : right.shape = .rightParen) (room : (nest.depth : Int) + 1 ≤ limit)
    (inside : nest.openList.feedAll limit tokens = (nest.openList.pushAll items, none)) :
    nest.feedAll limit (left :: (tokens ++ [right])) = (nest.push (.list items), none) := by
  have opens : nest.feed limit left = .ok nest.openList := (Feeds.opens leftShape room).feed_eq
  have closes :
      (nest.openList.pushAll items).feed limit right = .ok (nest.push (.list items)) := by
    refine (Feeds.closes rightShape ?_).feed_eq
    simp [closeList?, pushAll, openList, push]
  rw [feedAll, opens]
  simp only [feedAll_append, inside, feedAll, closes]

/-- Items between parentheses are a list of them, one level deeper. -/
theorem Delivers.parenthesized {chars : List Char} {levels : Nat} {items : List Expr}
    (delivers : Delivers chars levels items) :
    Delivers ('(' :: (chars ++ [')'])) (levels + 1) [.list items] := by
  intro offset
  obtain ⟨flawless, feeds⟩ := delivers (offset + 1)
  obtain ⟨left, right, leftShape, rightShape, flawlessThen, tokens⟩ := scan_parenthesized flawless
  refine ⟨flawlessThen, fun limit nest room => ?_⟩
  have roomList : (nest.depth : Int) + 1 ≤ limit := by
    unfold HasRoom at room
    omega
  have roomInside : HasRoom limit nest.openList.depth levels := by
    unfold HasRoom at room ⊢
    rw [Nest.depth_openList]
    omega
  rw [tokens]
  exact Nest.feedAll_parenthesized leftShape rightShape roomList (feeds limit _ roomInside)

/-! ### Atoms -/

theorem endsIdentifier_of_isSpacing {char : Char} (spacing : isSpacing char = true) :
    endsIdentifier char = true := by
  simp only [isSpacing, Bool.or_eq_true, decide_eq_true_eq] at spacing
  obtain (rfl | rfl) | rfl := spacing <;> decide

theorem IsNameText.beginsToken {chars : List Char} (name : IsNameText chars) :
    BeginsToken chars := by
  obtain ⟨first, rest, rfl, _, _, inside⟩ := name.exists_cons
  refine ⟨first, rest, rfl, ?_⟩
  cases spacing : isSpacing first with
  | false => rfl
  | true =>
    rw [endsIdentifier_of_isSpacing spacing] at inside
    cases inside

theorem IsNumeralText.beginsToken {chars : List Char} (numeral : IsNumeralText chars) :
    BeginsToken chars := by
  obtain ⟨first, rest, rfl, digit⟩ := numeral.exists_cons
  refine ⟨first, rest, rfl, ?_⟩
  cases spacing : isSpacing first with
  | false => rfl
  | true =>
    have ends := endsIdentifier_of_isSpacing spacing
    rw [endsIdentifier_of_isNumeral (isNumeral_of_isDigit digit)] at ends
    cases ends

theorem IsNameText.lexes {chars : List Char} (name : IsNameText chars) (offset : Nat) :
    Lexes offset chars (.ok ⟨.identifier, String.ofList chars, offset, offset + chars.length⟩)
      ⟨offset + chars.length, []⟩ := by
  have lexes : Lexes offset (chars ++ [])
      (.ok ⟨.identifier, String.ofList chars, offset, offset + chars.length⟩)
      ⟨offset + chars.length, []⟩ := .identifier name endsTokens_nil.2
  rwa [List.append_nil] at lexes

/-- A name is read as an identifier. -/
theorem IsNameText.delivers {chars : List Char} (name : IsNameText chars) :
    Delivers chars 0 [.identifier (String.ofList chars)] := by
  refine delivers_of_token name.beginsToken fun offset => ?_
  let token : Token := ⟨.identifier, String.ofList chars, offset, offset + chars.length⟩
  exact ⟨token, rfl, name.lexes offset⟩

theorem IsNumeralText.lexes {chars : List Char} (numeral : IsNumeralText chars) (offset : Nat) :
    Lexes offset chars (.ok ⟨.number, String.ofList chars, offset, offset + chars.length⟩)
      ⟨offset + chars.length, []⟩ := by
  have lexes : Lexes offset (chars ++ [])
      (.ok ⟨.number, String.ofList chars, offset, offset + chars.length⟩)
      ⟨offset + chars.length, []⟩ := .number numeral endsTokens_nil.1
  rwa [List.append_nil] at lexes

/-- A numeral is read as the number it denotes. -/
theorem IsNumeralText.delivers {chars : List Char} (numeral : IsNumeralText chars) {item : Expr}
    (denotes : numeral? (String.ofList chars) = some item) : Delivers chars 0 [item] := by
  refine delivers_of_token numeral.beginsToken fun offset => ?_
  let token : Token := ⟨.number, String.ofList chars, offset, offset + chars.length⟩
  exact ⟨token, denotes, numeral.lexes offset⟩

/-- The escapes that the printer writes are those that the reader knows. -/
theorem spells_escape {text : List Char} (noQuote : '"' ∉ text) :
    Spells (text.flatMap Expr.escape) text := by
  induction text with
  | nil => exact .nil
  | cons char text previous =>
    have notQuote : char ≠ '"' := fun same => noQuote (by simp [same])
    have rest : Spells (text.flatMap Expr.escape) text :=
      previous fun member => noQuote (List.mem_cons_of_mem _ member)
    rw [List.flatMap_cons]
    by_cases newline : char = '\n'
    · subst newline
      exact .escaped rfl rest
    by_cases tab : char = '\t'
    · subst tab
      exact .escaped rfl rest
    by_cases slash : char = '\\'
    · subst slash
      exact .escaped rfl rest
    rw [Expr.escape, if_neg newline, if_neg tab, if_neg slash]
    exact .plain notQuote slash rest

/-- A spelling between quotes is read as the string it stands for. -/
theorem Spells.delivers {raw text : List Char} (spelled : Spells raw text) :
    Delivers ('"' :: (raw ++ ['"'])) 0 [.string (String.ofList text)] := by
  refine delivers_of_token ⟨'"', _, rfl, rfl⟩ fun offset => ?_
  let stop := offset + 1 + raw.length + 1
  let token : Token := ⟨.string, String.ofList text, offset, stop⟩
  have lexes : Lexes offset ('"' :: (raw ++ ['"'])) (.ok token) ⟨stop, []⟩ := .string [] spelled
  have length : offset + ('"' :: (raw ++ ['"'])).length = stop := by
    simp only [List.length_cons, List.length_append, List.length_nil, stop]
    omega
  refine ⟨token, rfl, ?_⟩
  rw [length]
  exact lexes

/-- A string without a quote in it is read back. -/
theorem delivers_quoteString {text : String} (noQuote : '"' ∉ text.toList) :
    Delivers (Expr.quoteString text).toList 0 [.string text] := by
  have delivers := (spells_escape noQuote).delivers
  rw [String.ofList_toList] at delivers
  rwa [Expr.quoteString, String.toList_ofList]

/-! ### Floats -/

/-- The text of a float is there, and is read as a float of the same value. -/
def Single.ReadsBack (value : Single) : Prop :=
  ∃ (text : String) (back : Single), value.text = .ok text ∧
    ((Cursor.ofText text).readForm defaultLimit).1 = .ok (.float back) ∧
    back.sameValue value = true

/-- A text of one item is read as that item, up to its end. -/
theorem Delivers.readForm {text : String} {levels : Nat} {item : Expr}
    (delivers : Delivers text.toList levels [item]) {limit : Int} (room : HasRoom limit 0 levels) :
    ∃ after, (Cursor.ofText text).readForm limit = (.ok item, after) ∧ after.atEnd = true := by
  obtain ⟨flawless, feeds⟩ := delivers 0
  exact Cursor.readForm_of_feedAll flawless (feeds limit {} room)

/-- What is read from a numeral is what it denotes. -/
theorem IsNumeralText.denotes_of_readForm {text : String} (numeral : IsNumeralText text.toList)
    {limit : Int} {item : Expr} (read : ((Cursor.ofText text).readForm limit).1 = .ok item) :
    numeral? text = some item := by
  have whole : String.ofList text.toList = text := String.ofList_toList
  cases denotes : numeral? text with
  | some found =>
    have delivers : Delivers text.toList 0 [found] := numeral.delivers (by rw [whole, denotes])
    obtain ⟨after, readFound, _⟩ := delivers.readForm (.inl rfl)
    rw [readFound] at read
    cases read
    rfl
  | none =>
    let token : Token := ⟨.number, String.ofList text.toList, 0, 0 + text.toList.length⟩
    have scanned : (Cursor.ofText text).scan =
        (Cursor.scan ⟨0 + text.toList.length, []⟩).cons token :=
      scan_of_lexes numeral.beginsToken (numeral.lexes 0)
    have malformed : numeral? (String.ofList text.toList) = none := by rw [whole, denotes]
    have refused : Nest.Feeds limit {} token
        (.error ⟨.malformedNumber token.text, token.start, token.stop⟩) := .malformed rfl malformed
    simp only [Cursor.readForm, scanned, Scan.cons, Nest.feedOne, refused.feed_eq] at read
    cases read

theorem Floating.eq_of_sameValue {format : Format} {first second : Floating format}
    (same : first.sameValue second = true) (signs : first.negative = second.negative) :
    first = second := by
  obtain ⟨firstSign, firstCode⟩ := first
  obtain ⟨secondSign, secondCode⟩ := second
  simp only [Floating.sameValue, Bool.and_eq_true, beq_iff_eq] at same
  obtain ⟨⟨_, codes⟩, _⟩ := same
  simp only at signs
  rw [codes, signs]

/-- A float that reads back is printed as a numeral that denotes it. Its text has no sign, and so
neither has the float. -/
theorem Single.ReadsBack.delivers {value : Single} (readsBack : value.ReadsBack) :
    ∃ text, value.text = .ok text ∧ Delivers text.toList 0 [.float value] := by
  obtain ⟨text, back, printed, read, same⟩ := readsBack
  refine ⟨text, printed, ?_⟩
  obtain ⟨positive, numeral⟩ | name := Double.isNumeralText_or_isNameText printed
  · have denotes := numeral.denotes_of_readForm read
    have noSign : back.negative = false := by
      obtain ⟨_, _, impossible⟩ | ⟨_, noSign, found⟩ := numeral?_eq_some denotes
      · cases impossible
      · cases found
        exact noSign
    rw [negative_toDouble] at positive
    have equal : back = value := Floating.eq_of_sameValue same (noSign.trans positive.symm)
    subst equal
    exact numeral.delivers (by rw [String.ofList_toList, denotes])
  · -- A text with a sign in front is read as an identifier, so this is not the text of the float.
    have delivers := name.delivers
    rw [String.ofList_toList] at delivers
    obtain ⟨after, readName, _⟩ := delivers.readForm (.inl rfl)
    rw [readName] at read
    cases read

/-! ### Expressions -/

namespace Expr

/-- Every float in an expression reads back. -/
def FloatsReadBack (expr : Expr) : Prop :=
  ∀ value, .float value ∈ expr.leaves → Single.ReadsBack value

/-- The expressions that are read as they are printed. -/
def Readable (expr : Expr) : Prop :=
  expr.Legible ∧ expr.FloatsReadBack

theorem Readable.item {items : List Expr} (readable : Readable (.list items)) {item : Expr}
    (member : item ∈ items) : item.Readable := by
  refine ⟨legible_list_iff.mp readable.1 item member, fun value inside => readable.2 value ?_⟩
  rw [leaves, mem_leavesAll]
  exact ⟨item, member, inside⟩

theorem delivers_integer {value : Int} (nonneg : 0 ≤ value) (fits : value ≤ 2147483647) :
    Delivers (toString value).toList 0 [.integer value] := by
  obtain ⟨number, rfl⟩ := Int.eq_ofNat_of_zero_le nonneg
  have digits : (toString (number : Int)).toList = Nat.toDigits 10 number := Nat.toList_repr
  rw [digits]
  exact (isNumeralText_toDigits number).delivers (numeral?_toDigits (by omega))

theorem length_of_printAll {items : List Expr} {texts : List String}
    (printed : printAll items = .ok texts) : texts.length = items.length := by
  induction items generalizing texts with
  | nil =>
    cases printed
    rfl
  | cons first rest previous =>
    rw [printAll] at printed
    cases shown : print first with
    | error number => simp [shown, bind, Except.bind] at printed
    | ok text =>
      cases others : printAll rest with
      | error number => simp [shown, others, bind, Except.bind] at printed
      | ok texts =>
        rw [shown, others] at printed
        cases printed
        exact congrArg (· + 1) (previous others)

mutual

/-- The printed form of a readable expression delivers that expression. -/
theorem delivers_print (expr : Expr) (readable : expr.Readable) :
    ∃ text, expr.print = .ok text ∧ Delivers text.toList expr.nesting [expr] := by
  cases expr with
  | identifier name =>
    have isName : IsNameText name.toList := readable.1 _ List.mem_cons_self
    have delivers := isName.delivers
    rw [String.ofList_toList] at delivers
    exact ⟨name, rfl, delivers⟩
  | string text => exact ⟨_, rfl, delivers_quoteString (readable.1 _ List.mem_cons_self)⟩
  | integer value =>
    obtain ⟨nonneg, fits⟩ := readable.1 _ List.mem_cons_self
    exact ⟨_, rfl, delivers_integer nonneg fits⟩
  | float value => exact (readable.2 value List.mem_cons_self).delivers
  | list items =>
    obtain ⟨texts, printed, delivers⟩ := delivers_printAll items fun item => readable.item
    refine ⟨"(" ++ " ".intercalate texts ++ ")", ?_, ?_⟩
    · rw [print, printed]
      rfl
    · rw [String.toList_append, String.toList_append, List.append_assoc]
      exact delivers.parenthesized
  | native builtin => exact (readable.1 _ List.mem_cons_self).elim
  | closure params body scope name => exact (readable.1 _ List.mem_cons_self).elim

/-- The printed forms of readable expressions, with blanks between them, deliver these expressions.
-/
theorem delivers_printAll (items : List Expr) (readable : ∀ item ∈ items, item.Readable) :
    ∃ texts, printAll items = .ok texts ∧
      Delivers (" ".intercalate texts).toList (nestingAll items) items := by
  cases items with
  | nil => exact ⟨[], rfl, delivers_nil⟩
  | cons first rest =>
    obtain ⟨text, printed, delivers⟩ := delivers_print first (readable first List.mem_cons_self)
    obtain ⟨texts, printedRest, deliversRest⟩ :=
      delivers_printAll rest fun item member => readable item (List.mem_cons_of_mem _ member)
    refine ⟨text :: texts, ?_, ?_⟩
    · rw [printAll, printed, printedRest]
      rfl
    · cases rest with
      | nil =>
        cases printedRest
        rw [String.intercalate_singleton]
        simpa [nestingAll] using delivers
      | cons second others =>
        -- The blank in between ends the last token of the first item.
        have behind : texts ≠ [] := by
          rintro rfl
          cases length_of_printAll printedRest
        rw [String.intercalate_cons_of_ne_nil behind, String.toList_append, String.toList_append,
          List.append_assoc]
        exact delivers.append deliversRest.behind_space (endsTokens_cons _ (by decide) (by decide))

end

/-- A text is read as the given expression, and only blanks are left behind it. -/
def ReadsAs (limit : Int) (text : String) (expr : Expr) : Prop :=
  ∃ after, (Cursor.ofText text).readForm limit = (.ok expr, after) ∧ after.atEnd = true

theorem readsAs_print {limit : Int} {expr : Expr} (readable : expr.Readable)
    (fits : expr.FitsWithin limit) : ∃ text, expr.print = .ok text ∧ ReadsAs limit text expr := by
  obtain ⟨text, printed, delivers⟩ := delivers_print expr readable
  exact ⟨text, printed, delivers.readForm fits⟩

/-- **Printing and reading back.** A readable expression whose lists are within the limit is
printed, and its text is read as that expression up to its end. Whatever is read, from any place of
any text, has leaves that can be read, no functions among them, and lists within the limit; so if
its floats read back, it is read again from its printed form. -/
theorem print_read_round_trip (limit : Int) :
    (∀ expr : Expr, expr.Readable → expr.FitsWithin limit →
      ∃ text, expr.print = .ok text ∧ ReadsAs limit text expr) ∧
    ∀ (cursor after : Cursor) (form : Expr), cursor.readForm limit = (.ok form, after) →
      form.Legible ∧ form.FitsWithin limit ∧
        (form.FloatsReadBack → ∃ text, form.print = .ok text ∧ ReadsAs limit text form) := by
  refine ⟨fun expr readable fits => readsAs_print readable fits, fun cursor after form read => ?_⟩
  obtain ⟨legible, fits⟩ := Cursor.legible_of_readForm read
  exact ⟨legible, fits, fun floats => readsAs_print ⟨legible, floats⟩ fits⟩

/-- A nested list with a comma and a backslash in a name and an escape in a string. -/
theorem print_read_round_trip_nested :
    ∃ form : Expr, form.print = .ok "(a,b\\c (\"x\\ny\" 7) 1.5)" ∧ form.nesting = 2 ∧
      ReadsAs 2 "(a,b\\c (\"x\\ny\" 7) 1.5)" form ∧ form.Legible ∧ form.FitsWithin 2 := by
  let form : Expr := .list [.identifier "a,b\\c", .list [.string "x\ny", .integer 7],
    .float ⟨false, 1069547520⟩]
  have leaves : form.leaves = [.identifier "a,b\\c", .string "x\ny", .integer 7,
    .float ⟨false, 1069547520⟩] := by decide +kernel
  have floats : form.FloatsReadBack := by
    intro value member
    have single : value = ⟨false, 1069547520⟩ := by simpa [leaves] using member
    subst single
    exact ⟨"1.5", ⟨false, 1069547520⟩, by decide +kernel, by decide +kernel, by decide +kernel⟩
  have legible : form.Legible := by decide +kernel
  have printed : form.print = .ok "(a,b\\c (\"x\\ny\" 7) 1.5)" := by decide +kernel
  obtain ⟨text, printedText, reads⟩ :=
    (print_read_round_trip 2).1 form ⟨legible, floats⟩ (.inr (by decide +kernel))
  cases printedText.symm.trans printed
  obtain ⟨after, read, atEnd⟩ := reads
  obtain ⟨legibleAgain, fits, _⟩ := (print_read_round_trip 2).2 _ after form read
  exact ⟨form, printed, by decide +kernel, ⟨after, read, atEnd⟩, legibleAgain, fits⟩

end Expr

end Lisplet
