import Lisplet.Chunk
import Lisplet.Proofs.Continuation
import Mathlib.Data.List.TakeWhile

/-!
Reading a file chunk by chunk.

Lines are grouped into chunks by looking for the first point at which the text so far is complete.
Reading the chunks one after the other gives the same as reading all lines at once, in which the
lines that no chunk holds are taken to be empty: the same forms, and the same flaw at the same line
and column.

* `Text.lineColumn`: the line and the column of an offset.
* `Chunk.groupsFrom`: the groups of lines that make up the chunks.
* `Chunk.splitFrom_eq_ofGroups`: the chunks are these groups, with their first lines.
* `Chunk.readChunks`: the forms of chunks that are read one after the other.
* `Chunk.ReadsAlike`: chunks and a text have the same forms and the same flaw.
* `Chunk.readsAlike_ofGroups`: groups of lines are read like the text that they make up.
* `Chunk.split_reads_whole_text`: reading chunk by chunk is reading as a whole.
-/

namespace Lisplet

/-! ### Lines and columns -/

namespace Text

/-- The line and the column of an offset, both counted from zero. -/
def lineColumn (chars : List Char) (offset : Nat) : Nat × Nat :=
  (countBreaks chars offset, offset - lineStart chars offset)

theorem slice_zero (chars : List Char) (offset : Nat) :
    slice chars 0 offset = chars.take offset := by
  have start : offsetOf chars.length 0 = 0 := by simp [offsetOf]
  have stop : offsetOf chars.length offset = min offset chars.length := by
    rw [offsetOf, if_neg (by omega), Int.toNat_natCast]
  rw [slice, start, stop, List.drop_zero, List.take_eq_take_iff]
  simp

theorem countBreaks_eq (chars : List Char) (offset : Nat) :
    countBreaks chars offset = (chars.take offset).count '\n' := by
  rw [countBreaks, slice_zero]

theorem lineStart_eq (chars : List Char) (offset : Nat) :
    lineStart chars offset = (chars.take offset).length -
      ((chars.take offset).reverse.takeWhile (· != '\n')).length := by
  rw [lineStart, slice_zero]

/-- In front of the end of a text it does not matter what follows. -/
theorem lineColumn_append_left {first : List Char} {offset : Nat} (inside : offset ≤ first.length)
    (second : List Char) : lineColumn (first ++ second) offset = lineColumn first offset := by
  have taken : (first ++ second).take offset = first.take offset :=
    List.take_append_of_le_length inside
  simp only [lineColumn, countBreaks_eq, lineStart_eq, taken]

/-- Behind a line break the columns are those of the second text, and its lines are counted on. -/
theorem lineColumn_behind_break (first second : List Char) (offset : Nat) :
    lineColumn (first ++ '\n' :: second) (offset + (first.length + 1)) =
      (first.count '\n' + 1 + (lineColumn second offset).1, (lineColumn second offset).2) := by
  have taken : (first ++ '\n' :: second).take (offset + (first.length + 1)) =
      first ++ '\n' :: second.take offset := by
    rw [List.take_append, List.take_of_length_le (by omega),
      show offset + (first.length + 1) - first.length = offset + 1 by omega, List.take_succ_cons]
  have line : ((second.take offset).reverse ++ '\n' :: first.reverse).takeWhile (· != '\n') =
      (second.take offset).reverse.takeWhile (· != '\n') := by
    rw [List.takeWhile_append]
    split
    · rename_i whole
      rw [List.takeWhile_cons_of_neg (by simp), List.append_nil]
      exact ((List.takeWhile_prefix _).eq_of_length whole).symm
    · rfl
  have shorter : ((second.take offset).reverse.takeWhile (· != '\n')).length ≤
      (second.take offset).length := by
    have := (List.takeWhile_prefix (· != '\n') (l := (second.take offset).reverse)).length_le
    simpa using this
  have bound : (second.take offset).length ≤ offset := List.length_take_le _ _
  simp only [lineColumn, countBreaks_eq, lineStart_eq, taken, List.reverse_append,
    List.reverse_cons, List.append_assoc, List.singleton_append, line, List.count_append,
    List.count_cons_self, List.length_append, List.length_cons]
  refine Prod.ext ?_ ?_
  · show _ + (_ + 1) = _ + 1 + _
    omega
  · show _ - _ = _ - _
    omega

end Text

/-! ### Blank texts -/

/-- A text with nothing left between its blanks is blank. -/
theorem Text.strip_isEmpty_iff (text : String) :
    (Text.strip text).isEmpty = true ↔ ∀ char ∈ text.toList, Text.isBlank char = true := by
  rw [String.isEmpty_iff, Text.strip, Text.trimList, ← String.toList_inj, String.toList_ofList,
    String.toList_empty, List.reverse_eq_nil_iff, List.dropWhile_eq_nil_iff]
  constructor
  · intro trimmed
    -- What is left in front of the first character that is not dropped is nothing at all.
    rw [← List.dropWhile_eq_nil_iff]
    cases left : text.toList.dropWhile Text.isBlank with
    | nil => rfl
    | cons first rest =>
      have kept := halts_dropWhile Text.isBlank text.toList first (by rw [left]; rfl)
      have dropped := trimmed first (by rw [left]; simp)
      simp [dropped] at kept
  · intro blank char member
    rw [List.dropWhile_eq_nil_iff.mpr blank] at member
    cases member

/-- A text without an opening parenthesis and without a quote. -/
def Plain (chars : List Char) : Prop :=
  '(' ∉ chars ∧ '"' ∉ chars

theorem Lexes.of_plain {offset : Nat} {rest : List Char} {result : Except Flaw Token}
    {after : Cursor} (lexes : Lexes offset rest result after) (plain : Plain rest)
    (begins : BeginsToken rest) :
    Plain after.rest ∧ (∀ token, result = .ok token → token.shape ≠ .leftParen) ∧
      ∀ flaw, result = .error flaw → flaw.cause ≠ .endOfInput := by
  have inside := lexes.suffix.subset
  refine ⟨⟨fun left => plain.1 (inside left), fun quote => plain.2 (inside quote)⟩, ?_, ?_⟩
  · rintro token rfl shape
    cases lexes <;> simp at shape
    exact plain.1 (by simp)
  · rintro flaw rfl cause
    cases lexes with
    | atEnd =>
      obtain ⟨first, tail, empty, _⟩ := begins
      cases empty
    | openString _ => exact plain.2 (by simp)
    | openEscape _ => exact plain.2 (by simp)
    | _ => simp [Flaw.at] at cause

/-- A text without an opening parenthesis and without a quote opens nothing. -/
theorem Scans.of_plain {cursor : Cursor} {scan : Scan} (scans : Scans cursor scan)
    (plain : Plain cursor.rest) :
    (∀ token ∈ scan.tokens, token.shape ≠ .leftParen) ∧
      ∀ flaw, scan.flaw = some flaw → flaw.cause ≠ .endOfInput := by
  induction scans with
  | ended => simp
  | @flawed offset blanks rest flaw after blank begins lexes =>
    have plainRest : Plain rest :=
      ⟨fun left => plain.1 (by simp [left]), fun quote => plain.2 (by simp [quote])⟩
    refine ⟨by simp, ?_⟩
    rintro found ⟨⟩
    exact (lexes.of_plain plainRest begins).2.2 flaw rfl
  | @token offset blanks rest token after scan blank begins lexes more previous =>
    have plainRest : Plain rest :=
      ⟨fun left => plain.1 (by simp [left]), fun quote => plain.2 (by simp [quote])⟩
    obtain ⟨plainAfter, shape, _⟩ := lexes.of_plain plainRest begins
    obtain ⟨tokens, flaws⟩ := previous plainAfter
    refine ⟨fun other member => ?_, flaws⟩
    obtain rfl | member := List.mem_cons.mp member
    · exact shape other rfl
    · exact tokens other member

theorem openLists?_of_no_leftParen {tokens : List Token}
    (closed : ∀ token ∈ tokens, token.shape ≠ .leftParen) :
    openLists? 0 tokens = none ∨ openLists? 0 tokens = some 0 := by
  induction tokens with
  | nil => exact .inr rfl
  | cons token tokens previous =>
    by_cases right : token.shape = .rightParen
    · exact .inl (openLists?_unbalanced tokens right)
    · rw [openLists?_atom 0 tokens (closed token (by simp)) right]
      exact previous fun other member => closed other (List.mem_cons_of_mem _ member)

/-- A text with an open list or string has an opening parenthesis or a quote in it. -/
theorem not_plain_of_incomplete {code : String} (incomplete : isIncomplete code = true) :
    ¬ Plain code.toList := by
  intro plain
  obtain ⟨tokens, flaws⟩ := (scans_scan (Cursor.ofText code)).of_plain plain
  change ∀ token ∈ (Scan.ofText code).tokens, _ at tokens
  change ∀ flaw, (Scan.ofText code).flaw = some flaw → _ at flaws
  rw [isIncomplete] at incomplete
  obtain counted | counted := openLists?_of_no_leftParen tokens
  · simp [counted] at incomplete
  · cases spoiled : (Scan.ofText code).flaw with
    | none => simp [counted, spoiled] at incomplete
    | some flaw =>
      simp only [counted, spoiled, decide_eq_true_eq] at incomplete
      exact flaws flaw spoiled incomplete

/-- An incomplete text is not blank. -/
theorem strip_of_incomplete {code : String} (incomplete : isIncomplete code = true) :
    (Text.strip code).isEmpty = false := by
  rw [Bool.eq_false_iff]
  intro empty
  have blank := (Text.strip_isEmpty_iff code).mp empty
  refine not_plain_of_incomplete incomplete ⟨fun left => ?_, fun quote => ?_⟩
  · exact absurd (blank _ left) (by decide)
  · exact absurd (blank _ quote) (by decide)

/-! ### Groups of lines -/

namespace Chunk

/-- Lines joined by line breaks. -/
def joinLines (lines : List String) : String :=
  "\n".intercalate lines

/-- Lines with those emptied that no chunk holds: the blank ones that come while nothing is pending.
`pending` is the incomplete text in front of them, or empty. -/
def emptyDropped (pending : String) : List String → List String
  | [] => []
  | line :: lines =>
    let code := joinLine pending line
    (if pending.isEmpty ∧ (Text.strip line).isEmpty then "" else line)
      :: emptyDropped (if isIncomplete code then code else "") lines

/-- The text of lines, those emptied that no chunk holds. -/
def wholeText (lines : List String) : String :=
  joinLines (emptyDropped "" lines)

/-- The chunks of groups of lines, the first of which begins with the line `number`. A blank group
has no chunk. -/
def ofGroups (number : Nat) : List (List String) → List Chunk
  | [] => []
  | group :: groups =>
    let rest := ofGroups (number + group.length) groups
    if (Text.strip (joinLines group)).isEmpty then rest else ⟨joinLines group, number⟩ :: rest

/-- The groups of lines that are complete as a whole and have no shorter beginning that is. The
first lines continue `pending`. -/
def groupsFrom (pending : List String) : List String → List (List String)
  | [] => if pending.isEmpty then [] else [pending]
  | line :: lines =>
    if isIncomplete (joinLines (pending ++ [line])) then groupsFrom (pending ++ [line]) lines
    else (pending ++ [line]) :: groupsFrom [] lines

/-- Lines that wait for a further one: none at all, or an incomplete text all of whose beginnings
are. -/
def Pending (group : List String) : Prop :=
  ∀ count, 0 < count → count ≤ group.length → isIncomplete (joinLines (group.take count)) = true

theorem isIncomplete_empty : isIncomplete "" = false := by decide +kernel

theorem pending_nil : Pending [] := by
  intro count positive short
  simp at short
  omega

theorem Pending.incomplete {group : List String} (pending : Pending group) (nonempty : group ≠ []) :
    isIncomplete (joinLines group) = true := by
  have whole := pending group.length (List.length_pos_iff.mpr nonempty) (Nat.le_refl _)
  rwa [List.take_length] at whole

theorem Pending.isEmpty_iff {group : List String} (pending : Pending group) :
    (joinLines group).isEmpty = true ↔ group = [] := by
  constructor
  · intro empty
    refine Decidable.byContradiction fun nonempty => ?_
    have incomplete := pending.incomplete nonempty
    rw [String.isEmpty_iff.mp empty, isIncomplete_empty] at incomplete
    cases incomplete
  · rintro rfl
    rfl

theorem joinLines_append_singleton {group : List String} (nonempty : group ≠ []) (line : String) :
    joinLines (group ++ [line]) = joinLines group ++ "\n" ++ line := by
  rw [joinLines, String.intercalate_append_of_ne_nil nonempty (by simp),
    String.intercalate_singleton, joinLines]

/-- A line joined to those that are pending. -/
theorem Pending.joinLine_eq {group : List String} (pending : Pending group) (line : String) :
    joinLine (joinLines group) line = joinLines (group ++ [line]) := by
  by_cases empty : group = []
  · subst empty
    exact (String.intercalate_singleton).symm
  · have notEmpty : ¬ (joinLines group).isEmpty = true :=
      fun blank => empty (pending.isEmpty_iff.mp blank)
    rw [joinLine, if_neg notEmpty, joinLines_append_singleton empty]

/-- An incomplete line more keeps lines waiting. -/
theorem Pending.append {group : List String} (pending : Pending group) {line : String}
    (incomplete : isIncomplete (joinLines (group ++ [line])) = true) :
    Pending (group ++ [line]) := by
  intro count positive short
  by_cases inside : count ≤ group.length
  · rw [List.take_append_of_le_length inside]
    exact pending count positive inside
  · have all : count = (group ++ [line]).length := by
      simp only [List.length_append, List.length_cons, List.length_nil] at short ⊢
      omega
    rw [all, List.take_length]
    exact incomplete

/-- Only a single line can be blank. -/
theorem Pending.length_of_blank {group : List String} (pending : Pending group) {line : String}
    (blank : (Text.strip (joinLines (group ++ [line]))).isEmpty = true) : group = [] := by
  refine Decidable.byContradiction fun nonempty => ?_
  have incomplete := pending.incomplete nonempty
  rw [Text.strip_isEmpty_iff, joinLines_append_singleton nonempty] at blank
  have notBlank := strip_of_incomplete incomplete
  rw [Bool.eq_false_iff, ne_eq, Text.strip_isEmpty_iff] at notBlank
  exact notBlank fun char member => blank char (by simp [member])

/-- The groups hold all lines in order. -/
theorem flatten_groupsFrom (pending lines : List String) :
    (groupsFrom pending lines).flatten = pending ++ lines := by
  induction lines generalizing pending with
  | nil =>
    rw [groupsFrom]
    split
    · rename_i empty
      simp [List.isEmpty_iff.mp empty]
    · simp
  | cons line lines previous =>
    rw [groupsFrom]
    split
    · rw [previous, List.append_assoc, List.singleton_append]
    · rw [List.flatten_cons, previous, List.nil_append, List.append_assoc, List.singleton_append]

/-- A group that grew line by line: it has a last line, and the lines in front of it were waiting.
-/
def Grown (group : List String) : Prop :=
  ∃ front last, group = front ++ [last] ∧ Pending front

theorem Pending.grown {group : List String} (pending : Pending group) (nonempty : group ≠ []) :
    Grown group := by
  refine ⟨group.dropLast, group.getLast nonempty, (List.dropLast_concat_getLast nonempty).symm, ?_⟩
  intro count positive short
  rw [List.length_dropLast] at short
  have beginning : group.dropLast.take count = group.take count := by
    rw [List.dropLast_eq_take, List.take_take, Nat.min_eq_left short]
  rw [beginning]
  exact pending count positive (by omega)

theorem grown_of_mem_groupsFrom {pending lines : List String} (waiting : Pending pending)
    {group : List String} (member : group ∈ groupsFrom pending lines) : Grown group := by
  induction lines generalizing pending with
  | nil =>
    rw [groupsFrom] at member
    split at member
    · cases member
    · rename_i nonempty
      obtain rfl := List.mem_singleton.mp member
      exact waiting.grown (by simpa using nonempty)
  | cons line lines previous =>
    rw [groupsFrom] at member
    split at member
    · rename_i incomplete
      exact previous (waiting.append incomplete) member
    · obtain rfl | member := List.mem_cons.mp member
      · exact ⟨pending, line, rfl, waiting⟩
      · exact previous pending_nil member

/-- All groups but the last are complete. -/
theorem complete_of_mem_dropLast {pending lines : List String} {group : List String}
    (member : group ∈ (groupsFrom pending lines).dropLast) :
    isIncomplete (joinLines group) = false := by
  induction lines generalizing pending with
  | nil =>
    rw [groupsFrom] at member
    split at member <;> cases member
  | cons line lines previous =>
    rw [groupsFrom] at member
    split at member
    · exact previous member
    · rename_i complete
      cases rest : groupsFrom [] lines with
      | nil =>
        rw [rest] at member
        cases member
      | cons next more =>
        rw [rest, List.dropLast_cons_cons] at member
        obtain rfl | member := List.mem_cons.mp member
        · simpa using complete
        · exact previous (rest ▸ member)

theorem dropFinalBreaks_of_newlineFree {line : String} (newlineFree : '\n' ∉ line.toList) :
    Text.dropFinalBreaks line = line := by
  have kept : line.toList.reverse.dropWhile (· == '\n') = line.toList.reverse := by
    cases chars : line.toList.reverse with
    | nil => rfl
    | cons first rest =>
      have different : first ≠ '\n' := by
        rintro rfl
        exact newlineFree (List.mem_reverse.mp (by rw [chars]; simp))
      exact List.dropWhile_cons_of_neg (by simpa using different)
  rw [Text.dropFinalBreaks, kept, List.reverse_reverse, String.ofList_toList]

/-- The chunks of lines are the groups of lines, each with the number of its first line. -/
theorem splitFrom_eq_ofGroups {pending lines : List String} (waiting : Pending pending)
    (newlineFree : ∀ line ∈ lines, '\n' ∉ line.toList) (first number : Nat)
    (counted : pending ≠ [] → first = number) :
    splitFrom (number + pending.length) ⟨joinLines pending, first⟩ lines =
      ofGroups number (groupsFrom pending lines) := by
  induction lines generalizing pending first number with
  | nil =>
    rw [splitFrom, groupsFrom]
    by_cases empty : pending = []
    · subst empty
      rfl
    · have notEmpty : ¬ (joinLines pending).isEmpty = true :=
        fun blank => empty (waiting.isEmpty_iff.mp blank)
      have notBlank := strip_of_incomplete (waiting.incomplete empty)
      rw [if_neg notEmpty, if_neg (by simpa using empty), counted empty]
      simp [ofGroups, notBlank]
  | cons line lines previous =>
    have free := newlineFree line List.mem_cons_self
    have freeRest := fun other member => newlineFree other (List.mem_cons_of_mem line member)
    have start : (if (joinLines pending).isEmpty = true then number + pending.length else first) =
        number := by
      by_cases empty : pending = []
      · subst empty
        rfl
      · rw [if_neg fun blank => empty (waiting.isEmpty_iff.mp blank), counted empty]
    rw [splitFrom, groupsFrom]
    simp only [dropFinalBreaks_of_newlineFree free, waiting.joinLine_eq, start]
    have length : number + pending.length + 1 = number + (pending ++ [line]).length := by
      simp [Nat.add_assoc]
    split
    · rename_i incomplete
      rw [length]
      exact previous (waiting.append incomplete) freeRest number number fun _ => rfl
    · have rest := previous pending_nil freeRest 0 (number + (pending ++ [line]).length)
        fun impossible => absurd rfl impossible
      rw [length, ofGroups]
      exact congrArg (fun rest => if (Text.strip (joinLines (pending ++ [line]))).isEmpty = true
        then rest else (⟨joinLines (pending ++ [line]), number⟩ : Chunk) :: rest) rest

/-! ### The text that the groups make up -/

/-- The lines of a group, a blank one emptied. -/
def shownLines (group : List String) : List String :=
  if (Text.strip (joinLines group)).isEmpty then [""] else group

theorem joinLines_singleton (line : String) : joinLines [line] = line :=
  String.intercalate_singleton

theorem shownLines_of_incomplete {group : List String}
    (incomplete : isIncomplete (joinLines group) = true) : shownLines group = group := by
  rw [shownLines, strip_of_incomplete incomplete]
  rfl

/-- A line is emptied exactly if it makes up a blank group alone. -/
theorem Pending.append_shown {pending : List String} (waiting : Pending pending) (line : String) :
    pending ++ [if (joinLines pending).isEmpty ∧ (Text.strip line).isEmpty then "" else line] =
      shownLines (pending ++ [line]) := by
  rw [shownLines]
  by_cases empty : pending = []
  · subst empty
    rw [List.nil_append, List.nil_append, joinLines_singleton]
    by_cases blank : (Text.strip line).isEmpty = true
    · rw [if_pos ⟨rfl, blank⟩, if_pos blank]
    · rw [if_neg fun both => blank both.2, if_neg blank]
  · rw [if_neg fun both => empty (waiting.isEmpty_iff.mp both.1),
      if_neg fun blank => empty (waiting.length_of_blank blank)]

/-- The lines with the dropped ones emptied are those of the groups with the blank ones emptied. -/
theorem append_emptyDropped {pending : List String} (waiting : Pending pending)
    (lines : List String) :
    pending ++ emptyDropped (joinLines pending) lines =
      ((groupsFrom pending lines).map shownLines).flatten := by
  induction lines generalizing pending with
  | nil =>
    rw [groupsFrom, emptyDropped, List.append_nil]
    by_cases empty : pending = []
    · subst empty
      rfl
    · rw [if_neg (by simpa using empty)]
      simp [shownLines_of_incomplete (waiting.incomplete empty)]
  | cons line lines previous =>
    rw [groupsFrom, emptyDropped, ← List.singleton_append, ← List.append_assoc,
      waiting.append_shown, waiting.joinLine_eq]
    by_cases incomplete : isIncomplete (joinLines (pending ++ [line])) = true
    · rw [if_pos incomplete, if_pos incomplete, shownLines_of_incomplete incomplete]
      exact previous (waiting.append incomplete)
    · rw [if_neg incomplete, if_neg incomplete, List.map_cons, List.flatten_cons]
      exact congrArg (shownLines (pending ++ [line]) ++ ·) (previous pending_nil)

theorem shownLines_ne_nil {group : List String} (nonempty : group ≠ []) :
    shownLines group ≠ [] := by
  rw [shownLines]
  split
  · simp
  · exact nonempty

theorem joinLines_append {first second : List String} (nonempty : first ≠ [])
    (more : second ≠ []) :
    joinLines (first ++ second) = joinLines first ++ "\n" ++ joinLines second :=
  String.intercalate_append_of_ne_nil nonempty more

/-- Lines without breaks in them make a text with one break less than there are lines. -/
theorem count_joinLines {lines : List String} (nonempty : lines ≠ [])
    (newlineFree : ∀ line ∈ lines, '\n' ∉ line.toList) :
    (joinLines lines).toList.count '\n' + 1 = lines.length := by
  induction lines with
  | nil => exact absurd rfl nonempty
  | cons line lines previous =>
    have free : line.toList.count '\n' = 0 :=
      List.count_eq_zero.mpr (newlineFree line List.mem_cons_self)
    by_cases last : lines = []
    · subst last
      rw [joinLines_singleton, free]
      rfl
    · have rest := previous last fun other member =>
        newlineFree other (List.mem_cons_of_mem _ member)
      have single : "\n".toList.count '\n' = 1 := by decide
      rw [← List.singleton_append, joinLines_append (by simp) last, joinLines_singleton,
        String.toList_append, String.toList_append, List.count_append, List.count_append, free,
        single, List.length_append, List.length_singleton]
      omega

/-! ### Reading chunk by chunk -/

/-- Read chunks one after the other, up to the first flaw: the forms so far, and the flaw with the
chunk that has it. -/
def readChunks (limit : Int) : List Chunk → List Expr × Option (Chunk × Flaw)
  | [] => ([], none)
  | chunk :: chunks =>
    let reading := Reading.ofText limit chunk.code
    match reading.flaw with
    | some flaw => (reading.forms, some (chunk, flaw))
    | none => (reading.forms ++ (readChunks limit chunks).1, (readChunks limit chunks).2)

/-- The flaw of a chunk and that of a text whose first line has the given number: both are there or
neither, they have the same cause, and they stand in the same line and column. -/
def SameFlaw (number : Nat) (text : String) : Option (Chunk × Flaw) → Option Flaw → Prop
  | none, none => True
  | some (chunk, flaw), some found =>
    found.cause = flaw.cause ∧
      number + (Text.lineColumn text.toList found.start).1 =
        chunk.line + (Text.lineColumn chunk.code.toList flaw.start).1 ∧
      (Text.lineColumn text.toList found.start).2 =
        (Text.lineColumn chunk.code.toList flaw.start).2
  | _, _ => False

/-- Text in front moves a flaw down, and does not move it sideways. -/
theorem SameFlaw.behind {number : Nat} {text : String} {part : Option (Chunk × Flaw)}
    {whole : Option Flaw} (first : String)
    (same : SameFlaw (number + (first.toList.count '\n' + 1)) text part whole) :
    SameFlaw number (first ++ "\n" ++ text) part
      (whole.map (Flaw.shift (first.toList.length + 1))) := by
  match part, whole with
  | none, none => trivial
  | some (chunk, flaw), some found =>
    obtain ⟨cause, line, column⟩ := same
    have joined : (first ++ "\n" ++ text).toList = first.toList ++ '\n' :: text.toList := by simp
    have moved := Text.lineColumn_behind_break first.toList text.toList found.start
    refine ⟨cause, ?_, ?_⟩
    · show number + (Text.lineColumn _ (found.start + _)).1 = _
      rw [joined, moved, ← line]
      omega
    · show (Text.lineColumn _ (found.start + _)).2 = _
      rw [joined, moved, ← column]

theorem ofText_empty (limit : Int) :
    (Reading.ofText limit "").forms = [] ∧ (Reading.ofText limit "").flaw = none := by
  have scan : (Cursor.ofText "").scan = ⟨[], none, ⟨0, []⟩⟩ :=
    Cursor.scan_of_blank (by simp)
  have fed : Nest.feedAll limit {} (Cursor.ofText "").scan.tokens = ({}, none) := by
    rw [scan]
    rfl
  rw [Reading.ofText, (Cursor.readAll_of_fed fed).1, (Cursor.readAll_of_fed fed).2, scan]
  exact ⟨rfl, rfl⟩

/-- Reading chunks gives the same as reading a text whose first line has the given number. -/
structure ReadsAlike (limit : Int) (number : Nat) (chunks : List Chunk) (text : String) : Prop where
  forms : (readChunks limit chunks).1 = (Reading.ofText limit text).forms
  flaw : SameFlaw number text (readChunks limit chunks).2 (Reading.ofText limit text).flaw

namespace ReadsAlike

variable {limit : Int} {number : Nat}

theorem empty : ReadsAlike limit number [] "" := by
  obtain ⟨forms, flaw⟩ := ofText_empty limit
  refine ⟨forms.symm, ?_⟩
  rw [flaw]
  trivial

theorem single (code : String) : ReadsAlike limit number [⟨code, number⟩] code := by
  cases read : (Reading.ofText limit code).flaw with
  | none => exact ⟨by simp [readChunks, read], by simp [readChunks, read, SameFlaw]⟩
  | some flaw => exact ⟨by simp [readChunks, read], by simp [readChunks, read, SameFlaw]⟩

/-- An empty line in front that no chunk holds. -/
theorem behind_empty {chunks : List Chunk} {text : String}
    (rest : ReadsAlike limit (number + 1) chunks text) :
    ReadsAlike limit number chunks ("" ++ "\n" ++ text) := by
  obtain ⟨forms, flaw⟩ := Reading.ofText_join_of_flawless (ofText_empty limit).2 text
  refine ⟨?_, ?_⟩
  · rw [forms, (ofText_empty limit).1, List.nil_append]
    exact rest.forms
  · rw [flaw]
    exact rest.flaw.behind ""

/-- A complete chunk in front. Its flaw, if it has one, is not the end of the text, so nothing that
follows could mend it. -/
theorem cons {code : String} {chunks : List Chunk} {text : String}
    (complete : isIncomplete code = false)
    (rest : ReadsAlike limit (number + (code.toList.count '\n' + 1)) chunks text) :
    ReadsAlike limit number (⟨code, number⟩ :: chunks) (code ++ "\n" ++ text) := by
  cases read : (Reading.ofText limit code).flaw with
  | none =>
    obtain ⟨forms, flaw⟩ := Reading.ofText_join_of_flawless read text
    refine ⟨?_, ?_⟩
    · rw [forms, ← rest.forms, readChunks]
      simp only [read]
    · rw [flaw, readChunks]
      simp only [read]
      exact rest.flaw.behind code
  | some found =>
    have final := cause_ne_endOfInput_of_complete complete read
    obtain ⟨forms, flaw⟩ := Reading.ofText_join_of_flaw read final text
    refine ⟨?_, ?_⟩
    · rw [forms, readChunks]
      simp only [read]
    · rw [flaw, readChunks]
      simp only [read]
      have joined : (code ++ "\n" ++ text).toList = code.toList ++ '\n' :: text.toList := by simp
      have same := Text.lineColumn_append_left (Reading.start_le read) ('\n' :: text.toList)
      refine ⟨rfl, ?_, ?_⟩
      · rw [joined, same]
      · rw [joined, same]

end ReadsAlike

theorem Grown.ne_nil {group : List String} (grown : Grown group) : group ≠ [] := by
  obtain ⟨front, last, rfl, _⟩ := grown
  simp

/-- A blank group is a single line. -/
theorem Grown.length_of_blank {group : List String} (grown : Grown group)
    (blank : (Text.strip (joinLines group)).isEmpty = true) : group.length = 1 := by
  obtain ⟨front, last, rfl, waiting⟩ := grown
  rw [waiting.length_of_blank blank]
  rfl

/-- The chunks of groups are read like the text that the groups make up, if all groups but the last
are complete. -/
theorem readsAlike_ofGroups (limit : Int) (number : Nat) {groups : List (List String)}
    (grown : ∀ group ∈ groups, Grown group)
    (newlineFree : ∀ group ∈ groups, ∀ line ∈ group, '\n' ∉ line.toList)
    (complete : ∀ group ∈ groups.dropLast, isIncomplete (joinLines group) = false) :
    ReadsAlike limit number (ofGroups number groups)
      (joinLines (groups.map shownLines).flatten) := by
  induction groups generalizing number with
  | nil => exact .empty
  | cons group groups previous =>
    have grownFirst := grown group List.mem_cons_self
    have grownRest := fun other member => grown other (List.mem_cons_of_mem group member)
    have freeRest := fun other member => newlineFree other (List.mem_cons_of_mem group member)
    have length : (joinLines group).toList.count '\n' + 1 = group.length :=
      count_joinLines grownFirst.ne_nil (newlineFree group List.mem_cons_self)
    rw [ofGroups, List.map_cons, List.flatten_cons]
    cases groups with
    | nil =>
      simp only [List.map_nil, List.flatten_nil, List.append_nil, ofGroups, shownLines]
      split
      · exact .empty
      · exact .single (joinLines group)
    | cons next more =>
      have completeRest : ∀ other ∈ (next :: more).dropLast,
          isIncomplete (joinLines other) = false := by
        intro other member
        exact complete other (by rw [List.dropLast_cons_cons]; exact List.mem_cons_of_mem _ member)
      have rest := previous (number + group.length) grownRest freeRest completeRest
      have behind : ((next :: more).map shownLines).flatten ≠ [] := by
        have nonempty := shownLines_ne_nil (grownRest next List.mem_cons_self).ne_nil
        rw [List.map_cons, List.flatten_cons]
        exact List.append_ne_nil_of_left_ne_nil nonempty _
      rw [joinLines_append (shownLines_ne_nil grownFirst.ne_nil) behind, shownLines]
      split
      · rename_i blank
        rw [grownFirst.length_of_blank blank] at rest ⊢
        exact rest.behind_empty
      · have completeFirst : isIncomplete (joinLines group) = false := by
          refine complete group ?_
          rw [List.dropLast_cons_cons]
          exact List.mem_cons_self
        rw [← length] at rest ⊢
        exact rest.cons completeFirst

/-- **Reading chunk by chunk is reading as a whole.** Reading the chunks of lines one after the
other gives the forms of all lines, with the dropped ones emptied, up to the same flaw in the same
line and column. The chunks are groups of lines that hold all lines in order, each with the number
of its first line; only a single blank line has no chunk, and all shorter beginnings of a group are
incomplete. -/
theorem split_reads_whole_text (lines : List String)
    (newlineFree : ∀ line ∈ lines, '\n' ∉ line.toList) (limit : Int) :
    ReadsAlike limit 1 (split lines) (wholeText lines) ∧
      ∃ groups : List (List String), groups.flatten = lines ∧ split lines = ofGroups 1 groups ∧
        ∀ group ∈ groups, group ≠ [] ∧
          ((Text.strip (joinLines group)).isEmpty = true → group.length = 1) ∧
          ∀ count, 0 < count → count < group.length →
            isIncomplete (joinLines (group.take count)) = true := by
  have grown : ∀ group ∈ groupsFrom [] lines, Grown group :=
    fun group member => grown_of_mem_groupsFrom pending_nil member
  have flattened : (groupsFrom [] lines).flatten = lines := flatten_groupsFrom [] lines
  have chunks : split lines = ofGroups 1 (groupsFrom [] lines) :=
    splitFrom_eq_ofGroups pending_nil newlineFree 0 1 fun impossible => absurd rfl impossible
  have text : wholeText lines = joinLines ((groupsFrom [] lines).map shownLines).flatten :=
    congrArg joinLines (append_emptyDropped pending_nil lines)
  refine ⟨?_, groupsFrom [] lines, flattened, chunks, fun group member => ⟨?_, ?_, ?_⟩⟩
  · rw [chunks, text]
    refine readsAlike_ofGroups limit 1 grown ?_ fun group => complete_of_mem_dropLast
    intro group member line inside
    refine newlineFree line ?_
    rw [← flattened]
    exact List.mem_flatten.mpr ⟨group, member, inside⟩
  · exact (grown group member).ne_nil
  · exact (grown group member).length_of_blank
  · intro count positive short
    obtain ⟨front, last, rfl, waiting⟩ := grown group member
    have inside : count ≤ front.length := by
      simp only [List.length_append, List.length_cons, List.length_nil] at short
      omega
    rw [List.take_append_of_le_length inside]
    exact waiting count positive inside

/-- A string over two lines, a line with nothing but a blank that no token has, and a malformed
number. -/
theorem split_reads_whole_text_malformed :
    ReadsAlike 100 1 [⟨"(f \"a\n  b\")", 1⟩, ⟨"(+ 1 2.5.1)", 4⟩]
      "(f \"a\n  b\")\n\n(+ 1 2.5.1)" := by
  let lines := ["(f \"a", "  b\")", "\u00a0", "(+ 1 2.5.1)"]
  have newlineFree : ∀ line ∈ lines, '\n' ∉ line.toList := by decide +kernel
  have chunks : split lines = [⟨"(f \"a\n  b\")", 1⟩, ⟨"(+ 1 2.5.1)", 4⟩] := by decide +kernel
  have text : wholeText lines = "(f \"a\n  b\")\n\n(+ 1 2.5.1)" := by decide +kernel
  have alike := (split_reads_whole_text lines newlineFree 100).1
  rwa [chunks, text] at alike

end Chunk

end Lisplet
