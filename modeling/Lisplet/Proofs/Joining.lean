import Lisplet.Error.Basic
import Lisplet.Form.Reading
import Lisplet.Proofs.Feeding
import Lisplet.Proofs.Lexing

/-!
Reading joined texts.

Behind a text that was read without a flaw, reading goes on as if the rest stood alone; and a flaw
that is not the end of the text stays what it is, whatever follows. Both hold as long as what
follows ends the last token of the first text.

* `EndsTokens`: a text that ends a numeral or an identifier in front of it.
* `Scans.followedBy_of_flawless`, `Scans.followedBy_of_flaw`: the tokens of joined texts.
* `Scans.shift`: the tokens of a text do not depend on the offset it stands at, but for their spans.
* `Nest.feedAll_after`: tokens are taken in behind complete forms as if they stood alone.
* `readAll_followedBy_of_flawless`, `readAll_followedBy_of_flaw`: the forms of joined texts.
* `readAll_shift`: the forms of a text do not depend on the offset it stands at.
* `Reading.compositional_across_breaks`: the forms and the error of two texts with a line break between
  them.
-/

namespace Lisplet

/-! ### Text behind a token -/

/-- A text that ends a numeral or an identifier in front of it. -/
def EndsTokens (more : List Char) : Prop :=
  Halts endsNumeral more ∧ Halts endsIdentifier more

theorem endsTokens_nil : EndsTokens [] := by
  simp [EndsTokens, Halts]

theorem endsTokens_cons {first : Char} (tail : List Char) (number : endsNumeral first = true)
    (identifier : endsIdentifier first = true) : EndsTokens (first :: tail) := by
  simp [EndsTokens, Halts, number, identifier]

theorem endsTokens_break (tail : List Char) : EndsTokens ('\n' :: tail) :=
  endsTokens_cons tail (by decide) (by decide)

theorem Halts.append {stop : Char → Bool} {rest more : List Char} (first : Halts stop rest)
    (second : Halts stop more) : Halts stop (rest ++ more) := by
  cases rest with
  | nil => exact second
  | cons char tail => exact first

/-- The same cursor in a text that goes on. -/
def Cursor.followedBy (cursor : Cursor) (more : List Char) : Cursor :=
  ⟨cursor.offset, cursor.rest ++ more⟩

/-- A result that no further text could change: a token, or a flaw other than the end. -/
def Settled (result : Except Flaw Token) : Prop :=
  ∀ flaw, result = .error flaw → flaw.cause ≠ .endOfInput

theorem settled_ok (token : Token) : Settled (.ok token) :=
  fun _ error => nomatch error

theorem Lexes.followedBy {offset : Nat} {rest more : List Char} {result : Except Flaw Token}
    {after : Cursor} (lexes : Lexes offset rest result after) (settled : Settled result)
    (ends : EndsTokens more) : Lexes offset (rest ++ more) result (after.followedBy more) := by
  cases lexes with
  | atEnd => exact absurd rfl (settled _ rfl)
  | leftParen tail => exact .leftParen (tail ++ more)
  | rightParen tail => exact .rightParen (tail ++ more)
  | number numeral halts =>
    rw [List.append_assoc]
    exact .number numeral (halts.append ends.1)
  | numberChar numeral strange goesOn =>
    rw [List.append_assoc]
    exact .numberChar numeral strange goesOn
  | string tail spelled =>
    rw [List.cons_append, List.append_assoc]
    exact .string (tail ++ more) spelled
  | openString spelled => exact absurd rfl (settled _ rfl)
  | openEscape spelled => exact absurd rfl (settled _ rfl)
  | notEscapable tail spelled strange =>
    rw [List.cons_append, List.append_assoc]
    exact .notEscapable (tail ++ more) spelled strange
  | identifier name halts =>
    rw [List.append_assoc]
    exact .identifier name (halts.append ends.2)
  | unexpectedChar tail endsName notLeft notRight =>
    exact .unexpectedChar (tail ++ more) endsName notLeft notRight

theorem BeginsToken.append {rest : List Char} (begins : BeginsToken rest) (more : List Char) :
    BeginsToken (rest ++ more) := by
  obtain ⟨first, tail, rfl, notBlank⟩ := begins
  exact ⟨first, tail ++ more, rfl, notBlank⟩

/-! ### Tokens of joined texts -/

/-- Put tokens in front of a scan. -/
def Scan.prepend (tokens : List Token) (scan : Scan) : Scan :=
  { scan with tokens := tokens ++ scan.tokens }

/-- Blanks in front of a text do not matter. -/
theorem Scans.behind_blanks {offset : Nat} {blanks rest : List Char} {scan : Scan}
    (blank : ∀ char ∈ blanks, isSpacing char = true)
    (scans : Scans ⟨offset + blanks.length, rest⟩ scan) : Scans ⟨offset, blanks ++ rest⟩ scan := by
  have allBlank : ∀ more : List Char, (∀ char ∈ more, isSpacing char = true) →
      ∀ char ∈ blanks ++ more, isSpacing char = true := by
    intro more blankMore char member
    exact (List.mem_append.mp member).elim (blank char) (blankMore char)
  cases scans with
  | ended blankMore =>
    rw [Nat.add_assoc, ← List.length_append]
    exact .ended (allBlank _ blankMore)
  | flawed blankMore begins lexes =>
    rw [Nat.add_assoc, ← List.length_append] at lexes
    rw [← List.append_assoc]
    exact .flawed (allBlank _ blankMore) begins lexes
  | token blankMore begins lexes more =>
    rw [Nat.add_assoc, ← List.length_append] at lexes
    rw [← List.append_assoc]
    exact .token (allBlank _ blankMore) begins lexes more

/-- Behind a text without a flaw the tokens of the rest follow. -/
theorem Scans.followedBy_of_flawless {cursor : Cursor} {scan later : Scan} {more : List Char}
    (scans : Scans cursor scan) (flawless : scan.flaw = none) (ends : EndsTokens more)
    (rest : Scans ⟨cursor.offset + cursor.rest.length, more⟩ later) :
    Scans (cursor.followedBy more) (later.prepend scan.tokens) := by
  induction scans with
  | ended blank => exact rest.behind_blanks blank
  | flawed => exact absurd flawless (by simp)
  | @token offset blanks chars token after scan blank begins lexes _ previous =>
    have continued := previous flawless (lexes.end_eq_of_blanks ▸ rest)
    show Scans ⟨offset, blanks ++ chars ++ more⟩ _
    rw [List.append_assoc]
    exact .token blank (begins.append more) (lexes.followedBy (settled_ok token) ends) continued

/-- A flaw other than the end of the text is there whatever follows. -/
theorem Scans.followedBy_of_flaw {cursor : Cursor} {scan : Scan} {flaw : Flaw} {more : List Char}
    (scans : Scans cursor scan) (flawed : scan.flaw = some flaw)
    (final : flaw.cause ≠ .endOfInput) (ends : EndsTokens more) :
    Scans (cursor.followedBy more) { scan with cursor := scan.cursor.followedBy more } := by
  induction scans with
  | ended => exact absurd flawed (by simp)
  | @flawed offset blanks chars found after blank begins lexes =>
    have settled : Settled (.error found) := by
      rintro other ⟨⟩
      cases flawed
      exact final
    show Scans ⟨offset, blanks ++ chars ++ more⟩ _
    rw [List.append_assoc]
    exact .flawed blank (begins.append more) (lexes.followedBy settled ends)
  | @token offset blanks chars token after scan blank begins lexes _ previous =>
    have continued := previous flawed
    show Scans ⟨offset, blanks ++ chars ++ more⟩ _
    rw [List.append_assoc]
    exact .token blank (begins.append more) (lexes.followedBy (settled_ok token) ends) continued

/-- The tokens of a text are there whatever follows. -/
theorem Scans.followedBy_tokens {cursor : Cursor} {scan : Scan} (scans : Scans cursor scan)
    {more : List Char} (ends : EndsTokens more) :
    ∃ later, (cursor.followedBy more).scan.tokens = scan.tokens ++ later := by
  induction scans with
  | ended => exact ⟨_, rfl⟩
  | flawed => exact ⟨_, rfl⟩
  | @token offset blanks chars token after scan blank begins lexes _ previous =>
    obtain ⟨later, same⟩ := previous
    have joined : Scans ⟨offset, blanks ++ (chars ++ more)⟩
        ((after.followedBy more).scan.cons token) :=
      .token blank (begins.append more) (lexes.followedBy (settled_ok token) ends) (scans_scan _)
    refine ⟨later, ?_⟩
    show (Cursor.scan ⟨offset, blanks ++ chars ++ more⟩).tokens = _
    rw [List.append_assoc, joined.scan_eq]
    simp [Scan.cons, same]

/-! ### A text at another offset -/

/-- The same flaw in a text that stands further back. -/
def Flaw.shift (distance : Nat) (flaw : Flaw) : Flaw :=
  ⟨flaw.cause, flaw.start + distance, flaw.stop + distance⟩

/-- The same token in a text that stands further back. -/
def Token.shift (distance : Nat) (token : Token) : Token :=
  ⟨token.shape, token.text, token.start + distance, token.stop + distance⟩

/-- The same place in a text that stands further back. -/
def Cursor.shift (distance : Nat) (cursor : Cursor) : Cursor :=
  ⟨cursor.offset + distance, cursor.rest⟩

/-- The same tokens and flaw in a text that stands further back. -/
def Scan.shift (distance : Nat) (scan : Scan) : Scan :=
  ⟨scan.tokens.map (Token.shift distance), scan.flaw.map (Flaw.shift distance),
    scan.cursor.shift distance⟩

theorem Flaw.shift_at (distance : Nat) (cause : FlawCause) (offset : Nat) :
    (Flaw.at cause offset).shift distance = Flaw.at cause (offset + distance) := by
  simp only [Flaw.at, Flaw.shift, Nat.add_right_comm]

theorem Lexes.shift_ok {offset : Nat} {rest : List Char} {token : Token} {after : Cursor}
    (lexes : Lexes offset rest (.ok token) after) (distance : Nat) :
    Lexes (offset + distance) rest (.ok (token.shift distance)) (after.shift distance) := by
  cases lexes with
  | leftParen tail =>
    simp only [Token.shift, Cursor.shift, Nat.add_right_comm _ _ distance]
    exact .leftParen tail
  | rightParen tail =>
    simp only [Token.shift, Cursor.shift, Nat.add_right_comm _ _ distance]
    exact .rightParen tail
  | number numeral halts =>
    simp only [Token.shift, Cursor.shift, Nat.add_right_comm _ _ distance]
    exact .number numeral halts
  | string tail spelled =>
    simp only [Token.shift, Cursor.shift, Nat.add_right_comm _ _ distance]
    exact .string tail spelled
  | identifier name halts =>
    simp only [Token.shift, Cursor.shift, Nat.add_right_comm _ _ distance]
    exact .identifier name halts

theorem Lexes.shift_error {offset : Nat} {rest : List Char} {flaw : Flaw} {after : Cursor}
    (lexes : Lexes offset rest (.error flaw) after) (distance : Nat) :
    Lexes (offset + distance) rest (.error (flaw.shift distance)) (after.shift distance) := by
  cases lexes with
  | atEnd =>
    rw [Flaw.shift_at]
    exact .atEnd
  | numberChar numeral strange goesOn =>
    simp only [Flaw.shift_at, Cursor.shift, Nat.add_right_comm _ _ distance]
    exact .numberChar numeral strange goesOn
  | openString spelled =>
    simp only [Flaw.shift_at, Cursor.shift, Nat.add_right_comm _ _ distance]
    exact .openString spelled
  | openEscape spelled =>
    simp only [Flaw.shift_at, Cursor.shift, Nat.add_right_comm _ _ distance]
    exact .openEscape spelled
  | notEscapable tail spelled strange =>
    simp only [Flaw.shift_at, Cursor.shift, Nat.add_right_comm _ _ distance]
    exact .notEscapable tail spelled strange
  | unexpectedChar tail ends notLeft notRight =>
    rw [Flaw.shift_at]
    exact .unexpectedChar tail ends notLeft notRight

/-- The tokens of a text do not depend on the offset it stands at, but for their spans. -/
theorem Scans.shift {cursor : Cursor} {scan : Scan} (scans : Scans cursor scan)
    (distance : Nat) : Scans (cursor.shift distance) (scan.shift distance) := by
  induction scans with
  | @ended offset blanks blank =>
    simp only [Scan.shift, Cursor.shift, Nat.add_right_comm _ _ distance]
    exact .ended blank
  | @flawed offset blanks chars flaw after blank begins lexes =>
    have later := lexes.shift_error distance
    rw [Nat.add_right_comm] at later
    exact .flawed blank begins later
  | @token offset blanks chars token after scan blank begins lexes _ previous =>
    have later := lexes.shift_ok distance
    rw [Nat.add_right_comm] at later
    exact .token blank begins later previous

theorem scan_shift (cursor : Cursor) (distance : Nat) :
    (cursor.shift distance).scan = cursor.scan.shift distance :=
  ((scans_scan cursor).shift distance).scan_eq

/-! ### Forms from joined token sequences -/

namespace Nest

/-- Older items in front of the outermost of some sequences. -/
def lengthen (older : List Expr) : List (List Expr) → List (List Expr)
  | [] => []
  | [outermost] => [outermost ++ older]
  | first :: second :: rest => first :: lengthen older (second :: rest)

/-- A nest behind complete forms that were read before, the last one first. -/
def after (older : List Expr) (nest : Nest) : Nest :=
  match nest.outer with
  | [] => ⟨nest.items ++ older, []⟩
  | outer => ⟨nest.items, lengthen older outer⟩

@[simp]
theorem length_lengthen (older : List Expr) (sequences : List (List Expr)) :
    (lengthen older sequences).length = sequences.length := by
  fun_induction lengthen older sequences <;> simp_all

@[simp]
theorem depth_after (older : List Expr) (nest : Nest) : (nest.after older).depth = nest.depth := by
  obtain ⟨items, outer⟩ := nest
  cases outer with
  | nil => rfl
  | cons first rest => exact length_lengthen older (first :: rest)

theorem push_after (older : List Expr) (nest : Nest) (item : Expr) :
    (nest.after older).push item = (nest.push item).after older := by
  obtain ⟨items, outer⟩ := nest
  cases outer <;> rfl

theorem openList_after (older : List Expr) (nest : Nest) :
    (nest.after older).openList = nest.openList.after older := by
  obtain ⟨items, outer⟩ := nest
  cases outer <;> rfl

theorem closeList?_after (older : List Expr) (nest : Nest) :
    (nest.after older).closeList? = nest.closeList?.map (after older) := by
  obtain ⟨items, outer⟩ := nest
  match outer with
  | [] => rfl
  | [first] => rfl
  | first :: second :: rest => rfl

theorem getLast?_lengthen (older first : List Expr) (rest : List (List Expr)) :
    (lengthen older (first :: rest)).getLast? = ((first :: rest).getLast?).map (· ++ older) := by
  induction rest generalizing first with
  | nil => rfl
  | cons second rest previous =>
    rw [lengthen, List.getLast?_cons_cons, ← previous second]
    obtain ⟨next, more, same⟩ : ∃ next more, lengthen older (second :: rest) = next :: more := by
      refine List.exists_cons_of_ne_nil fun empty => ?_
      have none := congrArg List.length empty
      simp at none
    rw [same, List.getLast?_cons_cons]

/-- The older forms come first. -/
theorem forms_after (older : List Expr) (nest : Nest) :
    (nest.after older).forms = older.reverse ++ nest.forms := by
  obtain ⟨items, outer⟩ := nest
  cases outer with
  | nil => simp [after, forms]
  | cons first rest =>
    show ((lengthen older (first :: rest)).getLast?.getD items).reverse = _
    rw [getLast?_lengthen]
    cases last : (first :: rest).getLast? with
    | none => simp at last
    | some outermost => simp [forms, last]

variable {limit : Int}

/-- What a token does to a nest does not depend on the forms in front of it. -/
theorem feed_after (older : List Expr) (nest : Nest) (token : Token) :
    (nest.after older).feed limit token = (nest.feed limit token).map (after older) := by
  apply Feeds.feed_eq
  have rule := nest.feeds limit token
  generalize nest.feed limit token = result at rule
  cases rule with
  | @atom item denotes =>
    show Feeds limit (nest.after older) token (.ok ((nest.push item).after older))
    rw [← push_after]
    exact .atom denotes
  | malformed shape denotes => exact .malformed shape denotes
  | opens shape room =>
    show Feeds limit (nest.after older) token (.ok (nest.openList.after older))
    rw [← openList_after]
    exact .opens shape (by rwa [depth_after])
  | tooDeep shape deep => exact .tooDeep shape (by rwa [depth_after])
  | closes shape closing =>
    refine .closes shape ?_
    rw [closeList?_after, closing]
    rfl
  | unbalanced shape closed => exact .unbalanced shape (by rwa [depth_after])

theorem feedAll_after (older : List Expr) (nest : Nest) (tokens : List Token) :
    (nest.after older).feedAll limit tokens =
      ((nest.feedAll limit tokens).1.after older, (nest.feedAll limit tokens).2) := by
  induction tokens generalizing nest with
  | nil => rfl
  | cons token tokens previous =>
    simp only [feedAll, feed_after]
    cases nest.feed limit token with
    | error flaw => rfl
    | ok fed => exact previous fed

theorem feed_shift (distance : Nat) (nest : Nest) (token : Token) :
    nest.feed limit (token.shift distance) =
      (nest.feed limit token).mapError (Flaw.shift distance) := by
  apply Feeds.feed_eq
  have rule := nest.feeds limit token
  generalize nest.feed limit token = result at rule
  cases rule with
  | atom denotes => exact .atom denotes
  | malformed shape denotes => exact .malformed shape denotes
  | opens shape room => exact .opens shape room
  | tooDeep shape deep => exact .tooDeep shape deep
  | closes shape closing => exact .closes shape closing
  | unbalanced shape closed => exact .unbalanced shape closed

theorem feedAll_shift (distance : Nat) (nest : Nest) (tokens : List Token) :
    nest.feedAll limit (tokens.map (Token.shift distance)) =
      ((nest.feedAll limit tokens).1,
        (nest.feedAll limit tokens).2.map fun stop =>
          (stop.1.shift distance, stop.2.shift distance)) := by
  induction tokens generalizing nest with
  | nil => rfl
  | cons token tokens previous =>
    simp only [List.map_cons, feedAll, feed_shift]
    cases nest.feed limit token with
    | error flaw => rfl
    | ok fed => exact previous fed

end Nest

/-! ### Forms of joined texts -/

namespace Cursor

variable {limit : Int} {cursor : Cursor} {more : List Char}

theorem readAll_of_stop {nest : Nest} {flaw : Flaw} {token : Token}
    (fed : Nest.feedAll limit {} cursor.scan.tokens = (nest, some (flaw, token))) :
    (cursor.readAll limit).forms = nest.forms ∧ (cursor.readAll limit).flaw = some flaw := by
  simp only [readAll, fed, and_self]

theorem readAll_of_fed {nest : Nest}
    (fed : Nest.feedAll limit {} cursor.scan.tokens = (nest, none)) :
    (cursor.readAll limit).forms = nest.forms ∧
      (cursor.readAll limit).flaw =
        if cursor.scan.flaw.isNone ∧ nest.depth = 0 then none else some (endFlaw cursor.scan) := by
  simp only [readAll, fed]
  split <;> exact ⟨rfl, rfl⟩

theorem forms_readAll (limit : Int) (cursor : Cursor) :
    (cursor.readAll limit).forms = (Nest.feedAll limit {} cursor.scan.tokens).1.forms := by
  rcases fed : Nest.feedAll limit {} cursor.scan.tokens with ⟨nest, _ | ⟨flaw, token⟩⟩
  · exact (readAll_of_fed fed).1
  · exact (readAll_of_stop fed).1

/-- A text is read without a flaw if its tokens have none and leave no list open. -/
theorem flaw_readAll_eq_none (read : (cursor.readAll limit).flaw = none) :
    cursor.scan.flaw = none ∧
      ∃ items, Nest.feedAll limit {} cursor.scan.tokens = (⟨items, []⟩, none) := by
  rcases fed : Nest.feedAll limit {} cursor.scan.tokens with ⟨nest, _ | ⟨flaw, token⟩⟩
  · rw [(readAll_of_fed fed).2] at read
    split at read
    · rename_i complete
      obtain ⟨items, outer⟩ := nest
      have closed : outer = [] := List.length_eq_zero_iff.mp complete.2
      subst closed
      exact ⟨Option.isNone_iff_eq_none.mp complete.1, items, rfl⟩
    · cases read
  · rw [(readAll_of_stop fed).2] at read
    cases read

/-- Behind a text that was read without a flaw, reading goes on as if the rest stood alone. -/
theorem readAll_followedBy_of_flawless (read : (cursor.readAll limit).flaw = none)
    (ends : EndsTokens more) :
    ((cursor.followedBy more).readAll limit).forms =
        (cursor.readAll limit).forms ++
          (readAll limit ⟨cursor.offset + cursor.rest.length, more⟩).forms ∧
      ((cursor.followedBy more).readAll limit).flaw =
        (readAll limit ⟨cursor.offset + cursor.rest.length, more⟩).flaw := by
  obtain ⟨flawless, items, complete⟩ := flaw_readAll_eq_none read
  let rest : Cursor := ⟨cursor.offset + cursor.rest.length, more⟩
  have joined : (cursor.followedBy more).scan = rest.scan.prepend cursor.scan.tokens :=
    ((scans_scan cursor).followedBy_of_flawless flawless ends (scans_scan rest)).scan_eq
  have tokens : Nest.feedAll limit {} (cursor.followedBy more).scan.tokens =
      ((Nest.feedAll limit {} rest.scan.tokens).1.after items,
        (Nest.feedAll limit {} rest.scan.tokens).2) := by
    rw [joined, Scan.prepend, Nest.feedAll_append, complete, ← Nest.feedAll_after]
    rfl
  have first : (cursor.readAll limit).forms = items.reverse := by
    rw [forms_readAll, complete]
    rfl
  constructor
  · rw [forms_readAll, tokens, first, forms_readAll, Nest.forms_after]
  · rcases fed : Nest.feedAll limit {} rest.scan.tokens with ⟨nest, _ | ⟨flaw, token⟩⟩
    · rw [fed] at tokens
      rw [(readAll_of_fed tokens).2, (readAll_of_fed fed).2, joined, Nest.depth_after]
      rfl
    · rw [fed] at tokens
      rw [(readAll_of_stop tokens).2, (readAll_of_stop fed).2]

/-- A flaw other than the end of the text is there whatever follows, behind the same forms. -/
theorem readAll_followedBy_of_flaw {flaw : Flaw}
    (read : (cursor.readAll limit).flaw = some flaw) (final : flaw.cause ≠ .endOfInput)
    (ends : EndsTokens more) :
    ((cursor.followedBy more).readAll limit).forms = (cursor.readAll limit).forms ∧
      ((cursor.followedBy more).readAll limit).flaw = some flaw := by
  rcases fed : Nest.feedAll limit {} cursor.scan.tokens with ⟨nest, _ | ⟨found, token⟩⟩
  · -- The flaw is one of the tokens, and is met again behind the same tokens.
    have flawed : cursor.scan.flaw = some flaw := by
      rw [(readAll_of_fed fed).2] at read
      split at read
      · cases read
      · cases found : cursor.scan.flaw with
        | none =>
          simp only [endFlaw, found, Option.getD_none, Option.some.injEq] at read
          exact absurd (congrArg Flaw.cause read).symm final
        | some other =>
          simpa [endFlaw, found] using read
    have joined := ((scans_scan cursor).followedBy_of_flaw flawed final ends).scan_eq
    have fedAgain : Nest.feedAll limit {} (cursor.followedBy more).scan.tokens = (nest, none) := by
      rw [joined]
      exact fed
    rw [(readAll_of_fed fedAgain).1, (readAll_of_fed fed).1, (readAll_of_fed fedAgain).2, joined]
    simp [endFlaw, flawed]
  · -- The flaw is one of the forms, and is met before any token of what follows.
    rw [(readAll_of_stop fed).2] at read
    cases read
    obtain ⟨later, joined⟩ := (scans_scan cursor).followedBy_tokens ends
    have fedAgain : Nest.feedAll limit {} (cursor.followedBy more).scan.tokens =
        (nest, some (flaw, token)) := by
      rw [joined, Nest.feedAll_append, fed]
    exact ⟨by rw [(readAll_of_stop fedAgain).1, (readAll_of_stop fed).1],
      (readAll_of_stop fedAgain).2⟩

/-- The forms of a text do not depend on the offset it stands at, and its flaw moves along. -/
theorem readAll_shift (limit : Int) (cursor : Cursor) (distance : Nat) :
    ((cursor.shift distance).readAll limit).forms = (cursor.readAll limit).forms ∧
      ((cursor.shift distance).readAll limit).flaw =
        (cursor.readAll limit).flaw.map (Flaw.shift distance) := by
  have tokens : Nest.feedAll limit {} (cursor.shift distance).scan.tokens =
      ((Nest.feedAll limit {} cursor.scan.tokens).1,
        (Nest.feedAll limit {} cursor.scan.tokens).2.map fun stop =>
          (stop.1.shift distance, stop.2.shift distance)) := by
    rw [scan_shift]
    exact Nest.feedAll_shift distance {} cursor.scan.tokens
  rcases fed : Nest.feedAll limit {} cursor.scan.tokens with ⟨nest, _ | ⟨flaw, token⟩⟩
  · rw [fed] at tokens
    refine ⟨by rw [(readAll_of_fed tokens).1, (readAll_of_fed fed).1], ?_⟩
    rw [(readAll_of_fed tokens).2, (readAll_of_fed fed).2, scan_shift]
    cases flaw : cursor.scan.flaw <;> by_cases closed : nest.depth = 0 <;>
      simp [Scan.shift, endFlaw, flaw, closed, Flaw.shift_at, Cursor.shift]
  · rw [fed] at tokens
    refine ⟨by rw [(readAll_of_stop tokens).1, (readAll_of_stop fed).1], ?_⟩
    rw [(readAll_of_stop tokens).2, (readAll_of_stop fed).2]
    rfl

/-- The forms and the flaw of a text are those of its tokens. -/
theorem readAll_of_scan_eq (limit : Int) {first second : Cursor} (same : first.scan = second.scan) :
    (first.readAll limit).forms = (second.readAll limit).forms ∧
      (first.readAll limit).flaw = (second.readAll limit).flaw := by
  refine ⟨by rw [forms_readAll, forms_readAll, same], ?_⟩
  rcases fed : Nest.feedAll limit {} second.scan.tokens with ⟨nest, _ | ⟨flaw, token⟩⟩
  · rw [(readAll_of_fed (same ▸ fed)).2, (readAll_of_fed fed).2, same]
  · rw [(readAll_of_stop (same ▸ fed)).2, (readAll_of_stop fed).2]

/-- A line break in front of a text does not matter. -/
theorem readAll_behind_break (limit : Int) (offset : Nat) (rest : List Char) :
    (readAll limit ⟨offset, '\n' :: rest⟩).forms = (readAll limit ⟨offset + 1, rest⟩).forms ∧
      (readAll limit ⟨offset, '\n' :: rest⟩).flaw = (readAll limit ⟨offset + 1, rest⟩).flaw := by
  refine readAll_of_scan_eq limit ?_
  have blank : ∀ char ∈ ['\n'], isSpacing char = true := by simp [isSpacing]
  exact (Scans.behind_blanks blank (scans_scan ⟨offset + 1, rest⟩)).scan_eq

end Cursor

namespace Reading

variable {limit : Int} {first second : String}

/-- Two texts with a line break between them, the first of which has no flaw. -/
theorem ofText_join_of_flawless (read : (ofText limit first).flaw = none) (second : String) :
    (ofText limit (first ++ "\n" ++ second)).forms =
        (ofText limit first).forms ++ (ofText limit second).forms ∧
      (ofText limit (first ++ "\n" ++ second)).flaw =
        (ofText limit second).flaw.map (Flaw.shift (first.toList.length + 1)) := by
  have joined : Cursor.ofText (first ++ "\n" ++ second) =
      (Cursor.ofText first).followedBy ('\n' :: second.toList) := by
    simp [Cursor.ofText, Cursor.followedBy]
  have whole := Cursor.readAll_followedBy_of_flawless read (endsTokens_break second.toList)
  have behind := Cursor.readAll_behind_break limit
    ((Cursor.ofText first).offset + (Cursor.ofText first).rest.length) second.toList
  have moved : (⟨(Cursor.ofText first).offset + (Cursor.ofText first).rest.length + 1,
      second.toList⟩ : Cursor) = (Cursor.ofText second).shift (first.toList.length + 1) := by
    simp [Cursor.ofText, Cursor.shift]
  rw [moved] at behind
  have shifted := Cursor.readAll_shift limit (Cursor.ofText second) (first.toList.length + 1)
  simp only [ofText, joined]
  rw [whole.1, whole.2, behind.1, behind.2, shifted.1, shifted.2]
  exact ⟨rfl, rfl⟩

/-- Two texts with a line break between them, the first of which has a flaw that is final. -/
theorem ofText_join_of_flaw {flaw : Flaw} (read : (ofText limit first).flaw = some flaw)
    (final : flaw.cause ≠ .endOfInput) (second : String) :
    (ofText limit (first ++ "\n" ++ second)).forms = (ofText limit first).forms ∧
      (ofText limit (first ++ "\n" ++ second)).flaw = some flaw := by
  have joined : Cursor.ofText (first ++ "\n" ++ second) =
      (Cursor.ofText first).followedBy ('\n' :: second.toList) := by
    simp [Cursor.ofText, Cursor.followedBy]
  rw [ofText, joined]
  exact Cursor.readAll_followedBy_of_flaw read final (endsTokens_break second.toList)

end Reading

/-! ### Errors of joined texts -/

/-- The same error in a text that has `distance` characters in front of the source of the error. -/
def Error.moved (text : String) (distance : Nat) (error : Error) : Error :=
  { error with source := text, start := error.start + distance, stop := error.stop + distance }

theorem Flaw.toError_shift (flaw : Flaw) (part text : String) (distance : Nat) :
    (flaw.shift distance).toError text = (flaw.toError part).moved text distance := by
  unfold Flaw.toError Flaw.shift Error.moved
  simp only [Int.natCast_add]

theorem FlawCause.kind_ne_unexpectedEnd_iff (cause : FlawCause) :
    cause.kind ≠ .unexpectedEnd ↔ cause ≠ .endOfInput := by
  cases cause <;> simp [FlawCause.kind]

namespace Reading

/-- The error that ends the reading of a text, if there is one. -/
def error? (limit : Int) (text : String) : Option Error :=
  (ofText limit text).flaw.map (·.toError text)

/-- **Reading is compositional across line breaks, and its errors are final.** Behind a text that is read
without an error, a second text is read as if it stood alone, and its error is the same one further back.
An error other than the end of the text is met whatever follows, behind the same forms and at the same
place. -/
theorem compositional_across_breaks (first second : String) (limit : Int) :
    let joined := first ++ "\n" ++ second
    (error? limit first = none →
      (ofText limit joined).forms = (ofText limit first).forms ++ (ofText limit second).forms ∧
        error? limit joined = (error? limit second).map (Error.moved joined (first.length + 1))) ∧
    ∀ error, error? limit first = some error → error.kind ≠ .unexpectedEnd →
      (ofText limit joined).forms = (ofText limit first).forms ∧
        error? limit joined = some { error with source := joined } := by
  intro joined
  refine ⟨fun read => ?_, fun error read final => ?_⟩
  · obtain ⟨forms, flaw⟩ := ofText_join_of_flawless (Option.map_eq_none_iff.mp read) second
    refine ⟨forms, ?_⟩
    unfold error?
    rw [flaw, Option.map_map, Option.map_map, ← String.length_toList]
    refine congrArg (Option.map · _) (funext fun found => ?_)
    exact found.toError_shift second joined _
  · obtain ⟨flaw, found, rfl⟩ := Option.map_eq_some_iff.mp read
    obtain ⟨forms, again⟩ :=
      ofText_join_of_flaw found ((flaw.cause.kind_ne_unexpectedEnd_iff).mp final) second
    refine ⟨forms, ?_⟩
    unfold error?
    rw [again]
    rfl

/-- A stray parenthesis in the second of two texts, and a malformed number in an open list that the
second text would close. -/
theorem compositional_across_breaks_stray :
    error? 100 "(f 1)" = none ∧
      error? 100 "(f 1)\n\"a\" )" =
        some { kind := .unbalanced, source := "(f 1)\n\"a\" )", start := 10, stop := 11 } ∧
      error? 100 "(f 1.2.3\n4)" =
        some { kind := .malformedNumber, args := [.text "1.2.3"], source := "(f 1.2.3\n4)",
               start := 3, stop := 8 } := by
  have first : error? 100 "(f 1)" = none := by decide +kernel
  have second : error? 100 "\"a\" )" =
      some { kind := .unbalanced, source := "\"a\" )", start := 4, stop := 5 } := by
    decide +kernel
  have unfinished : error? 100 "(f 1.2.3" =
      some { kind := .malformedNumber, args := [.text "1.2.3"], source := "(f 1.2.3", start := 3,
             stop := 8 } := by
    decide +kernel
  refine ⟨first, ?_, ?_⟩
  · have later := ((compositional_across_breaks "(f 1)" "\"a\" )" 100).1 first).2
    rw [second] at later
    exact later
  · exact ((compositional_across_breaks "(f 1.2.3" "4)" 100).2 _ unfinished (by decide)).2

end Reading

/-! ### Where flaws of forms stand -/

/-- Where a text ends too early, its flaw begins inside it or at its end. -/
theorem Cursor.endFlaw_start_le (text : String) :
    (endFlaw (Cursor.ofText text).scan).start ≤ text.toList.length := by
  have scans := scans_scan (Cursor.ofText text)
  cases spoiled : (Cursor.ofText text).scan.flaw with
  | none =>
    rw [endFlaw, spoiled, scans.cursor_of_flawless spoiled]
    simp [Flaw.at, Cursor.ofText]
  | some flaw =>
    have bound := scans.start_le.2 flaw spoiled
    rw [endFlaw, spoiled]
    simpa [Cursor.ofText] using bound

theorem Cursor.start_le_of_mem_scan {text : String} {token : Token}
    (member : token ∈ (Cursor.ofText text).scan.tokens) : token.start ≤ text.toList.length := by
  have bound := (scans_scan (Cursor.ofText text)).start_le.1 token member
  simpa [Cursor.ofText] using bound

/-- The flaw of a text begins inside it or at its end. -/
theorem Reading.start_le {limit : Int} {text : String} {flaw : Flaw}
    (read : (Reading.ofText limit text).flaw = some flaw) : flaw.start ≤ text.toList.length := by
  rcases fed : Nest.feedAll limit {} (Cursor.ofText text).scan.tokens with
    ⟨nest, _ | ⟨found, token⟩⟩
  · rw [Reading.ofText, (Cursor.readAll_of_fed fed).2] at read
    split at read
    · cases read
    · cases read
      exact Cursor.endFlaw_start_le text
  · rw [Reading.ofText, (Cursor.readAll_of_stop fed).2] at read
    cases read
    obtain ⟨member, start, _⟩ := Nest.span_of_feedAll fed
    rw [start]
    exact Cursor.start_le_of_mem_scan member

/-- A nest on its way to a first form is stopped by one of the tokens, and the flaw begins there. -/
theorem Nest.start_of_feedOne {limit : Int} {nest : Nest} {tokens : List Token} {flaw : Flaw}
    {token : Token} (stopped : nest.feedOne limit tokens = .flawed flaw token) :
    token ∈ tokens ∧ flaw.start = token.start := by
  induction tokens generalizing nest with
  | nil => cases stopped
  | cons first tokens previous =>
    rw [feedOne] at stopped
    cases step : nest.feed limit first with
    | error found =>
      simp only [step, Progress.flawed.injEq] at stopped
      obtain ⟨rfl, rfl⟩ := stopped
      cases feed_eq_iff.mp step <;> exact ⟨List.mem_cons_self, rfl⟩
    | ok fed =>
      simp only [step] at stopped
      split at stopped
      · cases stopped
      · obtain ⟨member, start⟩ := previous stopped
        exact ⟨List.mem_cons_of_mem _ member, start⟩

/-- The flaw of a text that is to hold one form begins inside it or at its end. -/
theorem Cursor.start_le_of_readForm {limit : Int} {text : String} {flaw : Flaw}
    (read : ((Cursor.ofText text).readForm limit).1 = .error flaw) :
    flaw.start ≤ text.toList.length := by
  rw [readForm] at read
  cases progress : Nest.feedOne limit {} (Cursor.ofText text).scan.tokens with
  | complete form token => simp [progress] at read
  | flawed found token =>
    simp only [progress, Except.error.injEq] at read
    subst read
    obtain ⟨member, start⟩ := Nest.start_of_feedOne progress
    rw [start]
    exact start_le_of_mem_scan member
  | unfinished =>
    simp only [progress, Except.error.injEq] at read
    subst read
    exact endFlaw_start_le text

end Lisplet
