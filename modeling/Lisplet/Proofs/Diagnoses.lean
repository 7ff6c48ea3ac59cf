import Lisplet.Proofs.Reporting

/-!
The line that a diagnosis shows.

The line of an offset is found in three ways: its number by counting line breaks, its beginning by a search
to the left and its end by a search to the right. All three find the line on which the offset lies, also
if it lies on a line break or at the end of the text. So a diagnosis shows that line as it is, with the
caret below the column of the offset.

* `Text.LineIn`: a line of a text, with what is in front of it and behind it.
* `Text.LineIn.countBreaks_eq`, `Text.LineIn.lineStart_eq`, `Text.LineIn.lineEnd_eq`: the three searches.
* `Error.diagnosis_eq`: the text of a diagnosis, with colours or without.
* `Error.diagnosis_of_line`: the text of a diagnosis without colours, with the line in one piece.
* `Chunk.LiesOn`: the line and the column of an offset of joined lines.
* `Chunk.exists_liesOn`: every offset up to the end lies on one of the lines.
-/

namespace Lisplet

/-! ### Lines in a text -/

namespace Text

/-- A line of a text. What is in front of it ends with a line break, and what is behind it begins with
one, unless there is nothing. -/
structure LineIn (chars before line after : List Char) : Prop where
  whole : chars = before ++ line ++ after
  begins : before = [] ∨ ∃ front, before = front ++ ['\n']
  unbroken : '\n' ∉ line
  ends : after = [] ∨ ∃ rest, after = '\n' :: rest

theorem takeWhile_unbroken {line : List Char} (unbroken : '\n' ∉ line) (rest : List Char) :
    (line ++ rest).takeWhile (· != '\n') = line ++ rest.takeWhile (· != '\n') := by
  refine List.takeWhile_append_of_pos fun char member => ?_
  rw [bne_iff_ne]
  rintro rfl
  exact unbroken member

namespace LineIn

variable {chars before line after : List Char} {column : Nat}

theorem take_eq (lineIn : LineIn chars before line after) (inside : column ≤ line.length) :
    chars.take (before.length + column) = before ++ line.take column := by
  rw [lineIn.whole, List.append_assoc, List.take_length_add_append,
    List.take_append_of_le_length inside]

/-- The breaks in front of an offset of the line are those in front of the line. -/
theorem countBreaks_eq (lineIn : LineIn chars before line after) (inside : column ≤ line.length) :
    countBreaks chars (before.length + column : Nat) = before.count '\n' := by
  have none : (line.take column).count '\n' = 0 :=
    List.count_eq_zero.mpr fun member => lineIn.unbroken (List.mem_of_mem_take member)
  rw [Text.countBreaks_eq, lineIn.take_eq inside, List.count_append, none, Nat.add_zero]

/-- The search to the left finds the beginning of the line. -/
theorem lineStart_eq (lineIn : LineIn chars before line after) (inside : column ≤ line.length) :
    lineStart chars (before.length + column : Nat) = before.length := by
  have unbroken : '\n' ∉ (line.take column).reverse :=
    fun member => lineIn.unbroken (List.mem_of_mem_take (List.mem_reverse.mp member))
  have stops : before.reverse.takeWhile (· != '\n') = [] := by
    obtain rfl | ⟨front, rfl⟩ := lineIn.begins
    · rfl
    · simp
  rw [Text.lineStart_eq, lineIn.take_eq inside, List.reverse_append, takeWhile_unbroken unbroken,
    stops, List.append_nil, List.length_reverse, List.length_append, Nat.add_sub_cancel]

/-- The search to the right finds the end of the line. -/
theorem lineEnd_eq (lineIn : LineIn chars before line after) (inside : column ≤ line.length) :
    lineEnd chars (before.length + column : Nat) = before.length + line.length := by
  have unbroken : '\n' ∉ line.drop column :=
    fun member => lineIn.unbroken (List.mem_of_mem_drop member)
  have stops : after.takeWhile (· != '\n') = [] := by
    obtain rfl | ⟨rest, rfl⟩ := lineIn.ends
    · rfl
    · simp
  have length : before.length + line.length ≤ chars.length := by
    rw [lineIn.whole, List.length_append, List.length_append]
    omega
  have first : offsetOf chars.length (before.length + column : Nat) = before.length + column := by
    rw [offsetOf, if_neg (by omega), Int.toNat_natCast]
    omega
  have rest : chars.drop (before.length + column) = line.drop column ++ after := by
    rw [lineIn.whole, List.append_assoc, List.drop_length_add_append,
      List.drop_append_of_le_length inside]
  simp only [lineEnd, first, rest, takeWhile_unbroken unbroken, stops, List.append_nil,
    List.length_drop]
  omega

end LineIn

theorem slice_natCast (chars : List Char) (start stop : Nat) :
    slice chars start stop = (chars.take stop).drop start := by
  have offsets : ∀ position : Nat, offsetOf chars.length position = min position chars.length := by
    intro position
    rw [offsetOf, if_neg (by omega), Int.toNat_natCast]
  have taken : chars.take (min stop chars.length) = chars.take stop := by
    rw [List.take_eq_take_iff]
    simp
  rw [slice, offsets, offsets, taken]
  by_cases inside : start ≤ chars.length
  · rw [Nat.min_eq_left inside]
  · have length : (chars.take stop).length ≤ chars.length := List.length_take_le' stop chars
    rw [List.drop_eq_nil_of_le (by omega), List.drop_eq_nil_of_le (by omega)]

/-- A text cut at two places is put together again by its three pieces. -/
theorem ofList_pieces (chars : List Char) (column width : Nat) :
    String.ofList (chars.take column) ++ String.ofList ((chars.drop column).take width) ++
      String.ofList (chars.drop (column + width)) = String.ofList chars := by
  rw [← String.ofList_append, ← String.ofList_append, ← List.drop_drop, List.append_assoc,
    List.take_append_drop, List.take_append_drop]

end Text

/-! ### Diagnoses -/

/-- The margin in front of the caret. -/
def Error.spaces (count : Nat) : String :=
  String.join (List.replicate count " ")

/-- The tail behind the caret. -/
def Error.tildes (count : Nat) : String :=
  String.join (List.replicate count "~")

theorem Error.excerpt_of_line {error : Error} {before line after : List Char} {column : Nat}
    (lineIn : Text.LineIn error.source.toList before line after)
    (start : error.start = (before.length + column : Nat)) (inside : column ≤ line.length) :
    error.excerpt = ⟨line, column,
      max (min error.stop (before.length + line.length : Nat) - before.length) (column + 1)⟩ := by
  have shown : (error.source.toList.take (before.length + line.length)).drop before.length = line := by
    rw [lineIn.take_eq (Nat.le_refl _), List.take_length, List.drop_left]
  have first : ((before.length + column : Nat) : Int) - before.length = column := by omega
  simp only [excerpt, start, lineIn.lineStart_eq inside, lineIn.lineEnd_eq inside, shown, first]

/-- The number of columns that the mark of an error covers, whose line ends at an offset. -/
def Error.markWidth (error : Error) (lineEnd : Nat) : Nat :=
  (max 1 (min error.stop lineEnd - error.start)).toNat

/-- A diagnosis with colours or without: the line on which its error begins, in three pieces, the second
of which is marked below. -/
theorem Error.diagnosis_eq [Host] {error : Error} {before line after : List Char}
    {column width : Nat}
    (lineIn : Text.LineIn error.source.toList before line after)
    (start : error.start = (before.length + column : Nat)) (inside : column ≤ line.length)
    (covered : width = error.markWidth (before.length + line.length)) (style : Style)
    (colored : Bool) :
    error.diagnosis style colored = .ok ("  " ++ String.ofList (line.take column) ++
      style.paint colored (String.ofList ((line.drop column).take width)) ++
        String.ofList (line.drop (column + width)) ++ "\n" ++ "  " ++ spaces column ++
          style.paint colored ("^" ++ tildes (width - 1))) := by
  have length : before.length + line.length ≤ error.source.length := by
    rw [← String.length_toList, lineIn.whole, List.length_append, List.length_append]
    omega
  have last : max (min error.stop (before.length + line.length : Nat) - before.length)
      (column + 1 : Int) = (column + width : Nat) := by
    rw [covered, markWidth]
    omega
  have fits : column ≤ error.source.length ∧ width - 1 ≤ error.source.length := by
    rw [markWidth] at covered
    omega
  have excerpt := excerpt_of_line lineIn start inside
  rw [last] at excerpt
  have margin : padding error.source.length " " column = .ok (spaces column) := by
    refine padding_eq_ok _ _ _ (by omega) ?_
    show (column : Int).toNat * 1 ≤ _
    omega
  have tail : padding error.source.length "~" ((column + width : Nat) - column - 1) =
      .ok (tildes (width - 1)) := by
    have count : (((column + width : Nat) : Int) - column - 1).toNat = width - 1 := by omega
    rw [padding_eq_ok _ _ _ (by rw [covered, markWidth]; omega), count]
    · rfl
    · show _ * 1 ≤ _
      omega
  have first : Text.slice line 0 column = line.take column := Text.slice_zero line column
  have second : Text.slice line column (column + width : Nat) = (line.drop column).take width := by
    rw [Text.slice_natCast, List.drop_take, Nat.add_sub_cancel_left]
  have third : Text.slice line (column + width : Nat) line.length = line.drop (column + width) := by
    rw [Text.slice_natCast, List.take_length]
  unfold diagnosis
  simp only [excerpt, margin, tail, first, second, third]
  rfl

/-- **A diagnosis shows the line on which its error begins, and marks the column below it.** The mark
goes on up to the end of the span or of the line. -/
theorem Error.diagnosis_of_line [Host] {error : Error} {before line after : List Char}
    {column : Nat}
    (lineIn : Text.LineIn error.source.toList before line after)
    (start : error.start = (before.length + column : Nat)) (inside : column ≤ line.length)
    (style : Style) :
    error.diagnosis style false = .ok ("  " ++ String.ofList line ++ "\n" ++ "  " ++ spaces column ++
      "^" ++ tildes (min error.stop (before.length + line.length : Nat) - error.start - 1).toNat) := by
  have count : (min error.stop (before.length + line.length : Nat) - error.start - 1).toNat =
      error.markWidth (before.length + line.length) - 1 := by
    rw [markWidth]
    omega
  rw [diagnosis_eq lineIn start inside rfl style false, count,
    ← Text.ofList_pieces line column (error.markWidth (before.length + line.length))]
  simp only [Style.paint_uncolored, String.append_assoc]

/-! ### Joined lines -/

namespace Chunk

theorem toList_joinLines_cons (line : String) {rest : List String} (more : rest ≠ []) :
    (joinLines (line :: rest)).toList = line.toList ++ '\n' :: (joinLines rest).toList := by
  rw [← List.singleton_append, joinLines_append (by simp) more, joinLines_singleton]
  simp

/-- The characters of lines, each with a break behind it. -/
def linesAbove (lines : List String) : List Char :=
  lines.flatMap fun line => line.toList ++ ['\n']

/-- The characters of lines, each with a break in front of it. -/
def linesBelow (lines : List String) : List Char :=
  lines.flatMap fun line => '\n' :: line.toList

theorem toList_joinLines (above : List String) (line : String) (below : List String) :
    (joinLines (above ++ line :: below)).toList =
      linesAbove above ++ line.toList ++ linesBelow below := by
  induction above with
  | cons first above previous =>
    rw [List.cons_append, toList_joinLines_cons first (by simp), previous]
    simp [linesAbove]
  | nil =>
    induction below generalizing line with
    | nil => simp [joinLines_singleton, linesAbove, linesBelow]
    | cons next below previous =>
      rw [List.nil_append, toList_joinLines_cons line (by simp)]
      have rest : (joinLines (next :: below)).toList = _ := previous next
      rw [rest]
      simp [linesAbove, linesBelow]

theorem count_linesAbove {lines : List String} (newlineFree : ∀ line ∈ lines, '\n' ∉ line.toList) :
    (linesAbove lines).count '\n' = lines.length := by
  induction lines with
  | nil => rfl
  | cons line lines previous =>
    have free : line.toList.count '\n' = 0 :=
      List.count_eq_zero.mpr (newlineFree line List.mem_cons_self)
    have rest := previous fun other member => newlineFree other (List.mem_cons_of_mem _ member)
    show ((line.toList ++ ['\n']) ++ linesAbove lines).count '\n' = _
    rw [List.count_append, List.count_append, free, rest, List.length_cons]
    simp [Nat.add_comm]

/-- An offset of joined lines lies on a line at a column, behind the lines above and their breaks. -/
structure LiesOn (lines : List String) (offset : Nat) (above : List String) (line : String)
    (below : List String) (column : Nat) : Prop where
  split : lines = above ++ line :: below
  distance : offset = (linesAbove above).length + column
  inside : column ≤ line.length

/-- Every offset up to the end lies on one of the lines. -/
theorem exists_liesOn {lines : List String} (nonempty : lines ≠ []) {offset : Nat}
    (within : offset ≤ (joinLines lines).toList.length) :
    ∃ above line below column, LiesOn lines offset above line below column := by
  induction lines generalizing offset with
  | nil => exact absurd rfl nonempty
  | cons line rest previous =>
    by_cases here : offset ≤ line.length
    · exact ⟨[], line, rest, offset, rfl, (Nat.zero_add offset).symm, here⟩
    · by_cases last : rest = []
      · subst last
        rw [joinLines_singleton, String.length_toList] at within
        exact absurd within here
      · rw [toList_joinLines_cons line last, List.length_append, List.length_cons,
          String.length_toList] at within
        obtain ⟨above, found, below, column, rfl, distance, inside⟩ :=
          previous last (show offset - (line.length + 1) ≤ _ by omega)
        refine ⟨line :: above, found, below, column, rfl, ?_, inside⟩
        show offset = ((line.toList ++ ['\n']) ++ linesAbove above).length + column
        rw [List.length_append, List.length_append, List.length_singleton, String.length_toList]
        omega

namespace LiesOn

variable {lines above below : List String} {line : String} {offset column : Nat}

/-- The line is one of the text that the lines make up. -/
theorem lineIn (lies : LiesOn lines offset above line below column)
    (newlineFree : ∀ line ∈ lines, '\n' ∉ line.toList) :
    Text.LineIn (joinLines lines).toList (linesAbove above) line.toList (linesBelow below) where
  whole := by rw [lies.split, toList_joinLines]
  begins := by
    rcases List.eq_nil_or_concat above with rfl | ⟨front, last, rfl⟩
    · exact .inl rfl
    · exact .inr ⟨linesAbove front ++ last.toList, by simp [linesAbove]⟩
  unbroken := newlineFree line (by simp [lies.split])
  ends := by
    cases below with
    | nil => exact .inl rfl
    | cons next below => exact .inr ⟨next.toList ++ linesBelow below, rfl⟩

/-- The end of the text lies behind the last column of the last line. -/
theorem column_of_end (lies : LiesOn lines offset above line below column)
    (ended : offset = (joinLines lines).toList.length) : column = line.length ∧ below = [] := by
  have distance := lies.distance
  have inside := lies.inside
  rw [lies.split, toList_joinLines, List.length_append, List.length_append,
    String.length_toList] at ended
  have nothing : (linesBelow below).length = 0 := by omega
  refine ⟨by omega, ?_⟩
  cases below with
  | nil => rfl
  | cons next below => simp [linesBelow] at nothing

end LiesOn

end Chunk

end Lisplet
