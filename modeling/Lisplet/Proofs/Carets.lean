import Lisplet.Proofs.Diagnoses
import Lisplet.Terminal

/-!
Carets below marked spans.

A diagnosis is two lines, whatever the source and wherever in it the error begins: the line of the source
that has as many line breaks in front of it as the error has, and a caret with a tail of tildes below the
columns of the span. The number of that line, the offset at which it begins and the offset at which it ends
are those of the source cut at its line breaks. Colours put escape sequences around what is marked and
around the mark, and nothing else.

* `Text.splitLines`, `Text.beginning`: the lines of a text, and the offsets at which they begin.
* `Text.exists_line`: the line of an offset has as many lines above it as there are breaks in front of it.
* `Style.withoutSequences`: a text without its escape sequences.
* `Error.markedLines`: a line with some of its columns marked.
* `Error.diagnosis_marks_span`: the diagnosis of an error.
-/

namespace Lisplet

/-! ### The lines of a text -/

namespace Text

/-- The lines of a text: what stands between its line breaks, one piece more than there are breaks. -/
def splitLines (text : String) : List String :=
  (text.toList.splitOn '\n').map String.ofList

/-- The offset at which the line with a number, counted from zero, begins: behind the lines above it and
their breaks. -/
def beginning (lines : List String) (number : Nat) : Nat :=
  (Chunk.linesAbove (lines.take number)).length

theorem splitLines_ne_nil (text : String) : splitLines text ≠ [] := by
  simp [splitLines]

theorem joinLines_splitLines (text : String) : Chunk.joinLines (splitLines text) = text := by
  have pieces : (splitLines text).map String.toList = text.toList.splitOn '\n' := by
    simp [splitLines]
  rw [← String.toList_inj, Chunk.joinLines, String.toList_intercalate, pieces]
  exact List.intercalate_splitOn '\n'

/-- Lines without breaks in them are found again. -/
theorem splitLines_joinLines {lines : List String} (nonempty : lines ≠ [])
    (newlineFree : ∀ line ∈ lines, '\n' ∉ line.toList) :
    splitLines (Chunk.joinLines lines) = lines := by
  have cut : (['\n'].intercalate (lines.map String.toList)).splitOn '\n' =
      lines.map String.toList :=
    List.splitOn_intercalate '\n' (by simpa using newlineFree) (by simpa using nonempty)
  have whole : (Chunk.joinLines lines).toList = ['\n'].intercalate (lines.map String.toList) :=
    String.toList_intercalate
  rw [splitLines, whole, cut]
  simp

/-- There is no line break in a line. By induction on the text: a break begins a new line, and every other
character is put in front of the first one. -/
theorem newlineFree_splitLines (text : String) : ∀ line ∈ splitLines text, '\n' ∉ line.toList := by
  have pieces : ∀ chars : List Char, ∀ piece ∈ chars.splitOn '\n', '\n' ∉ piece := by
    intro chars
    induction chars with
    | nil => simp
    | cons char chars previous =>
      rw [List.splitOn_cons_eq_if_modifyHead]
      split
      · exact List.forall_mem_cons.mpr ⟨List.not_mem_nil, previous⟩
      · rename_i other
        cases rest : chars.splitOn '\n' with
        | nil => simp
        | cons first more =>
          rw [rest] at previous
          obtain ⟨free, others⟩ := List.forall_mem_cons.mp previous
          refine List.forall_mem_cons.mpr ⟨?_, others⟩
          rw [List.mem_cons, not_or]
          exact ⟨fun same => other (beq_iff_eq.mpr same.symm), free⟩
  intro line member
  obtain ⟨piece, inside, rfl⟩ := List.mem_map.mp member
  simpa using pieces text.toList piece inside

/-- The line on which an offset lies is the one with as many lines above it as there are line breaks in
front of the offset. -/
theorem exists_line {text : String} {offset : Nat} (inside : offset ≤ text.length) :
    let number := (text.toList.take offset).count '\n'
    ∃ line column before after, (splitLines text)[number]? = some line ∧
      LineIn text.toList before line.toList after ∧
      before.length = beginning (splitLines text) number ∧ offset = before.length + column ∧
      column ≤ line.length := by
  intro number
  have whole := joinLines_splitLines text
  obtain ⟨above, line, below, column, lies⟩ := Chunk.exists_liesOn (splitLines_ne_nil text)
    (show offset ≤ _ by rwa [whole, String.length_toList])
  have lineIn := lies.lineIn (newlineFree_splitLines text)
  rw [whole] at lineIn
  have freeAbove : ∀ line ∈ above, '\n' ∉ line.toList :=
    fun line member => newlineFree_splitLines text line (by simp [lies.split, member])
  have column_le : column ≤ line.toList.length := by
    rw [String.length_toList]
    exact lies.inside
  have counted : number = above.length := by
    rw [← Chunk.count_linesAbove freeAbove, ← lineIn.countBreaks_eq column_le, ← lies.distance,
      countBreaks_eq]
  refine ⟨line, column, Chunk.linesAbove above, Chunk.linesBelow below, ?_, lineIn, ?_, lies.distance,
    lies.inside⟩
  · rw [counted, lies.split, List.getElem?_append_right (Nat.le_refl _), Nat.sub_self]
    rfl
  · rw [counted, lies.split, beginning, List.take_left]

end Text

/-! ### Escape sequences -/

namespace Style

/-- Characters without the escape sequences among them, each of which goes from an escape character to the
next `m`; `inside` says whether the first character is inside of one. -/
def withoutSequences (inside : Bool) : List Char → List Char
  | [] => []
  | char :: rest =>
    if inside then withoutSequences (char != 'm') rest
    else if char = '\x1b' then withoutSequences true rest
    else char :: withoutSequences false rest

theorem withoutSequences_append {front : List Char} (free : '\x1b' ∉ front) (rest : List Char) :
    withoutSequences false (front ++ rest) = front ++ withoutSequences false rest := by
  induction front with
  | nil => rfl
  | cons char front previous =>
    rw [List.mem_cons, not_or] at free
    rw [List.cons_append, withoutSequences, if_neg Bool.false_ne_true, if_neg (Ne.symm free.1),
      previous free.2, List.cons_append]

/-- A sequence that has begun goes up to its end. -/
theorem withoutSequences_inside {code : List Char} (unended : 'm' ∉ code) (rest : List Char) :
    withoutSequences true (code ++ 'm' :: rest) = withoutSequences false rest := by
  induction code with
  | nil => rfl
  | cons char code previous =>
    rw [List.mem_cons, not_or] at unended
    have goesOn : (char != 'm') = true := bne_iff_ne.mpr (Ne.symm unended.1)
    rw [List.cons_append, withoutSequences, if_pos rfl, goesOn, previous unended.2]

theorem withoutSequences_sequences {chars : List Char} (sequences : Sequences chars)
    (rest : List Char) : withoutSequences false (chars ++ rest) = withoutSequences false rest := by
  induction sequences with
  | nil => rfl
  | cons unended _ previous =>
    rw [List.cons_append, List.append_assoc, List.cons_append, withoutSequences,
      if_neg Bool.false_ne_true, if_pos rfl, withoutSequences_inside unended, previous]

/-- What stands between sequences is left when these are deleted. -/
theorem withoutSequences_between {opening text closing : String} (free : '\x1b' ∉ text.toList)
    (opens : Sequences opening.toList) (closes : Sequences closing.toList) (rest : List Char) :
    withoutSequences false ((opening ++ text ++ closing).toList ++ rest) =
      text.toList ++ withoutSequences false rest := by
  rw [String.toList_append, String.toList_append, List.append_assoc, List.append_assoc,
    withoutSequences_sequences opens, withoutSequences_append free,
    withoutSequences_sequences closes]

end Style

/-! ### Marked lines -/

namespace Error

/-- A line with `width` of its columns marked, from `column` on, and below it the mark, which begins with a
caret. What is marked and the mark are painted. -/
def markedLines (paint : String → String) (line : String) (column width : Nat) : String :=
  "  " ++ String.ofList (line.toList.take column) ++
    paint (String.ofList ((line.toList.drop column).take width)) ++
      String.ofList (line.toList.drop (column + width)) ++ "\n" ++
        spaces (2 + column) ++ paint ("^" ++ tildes (width - 1))

theorem toList_repeated (char : Char) (count : Nat) :
    (String.join (List.replicate count (String.ofList [char]))).toList = List.replicate count char := by
  rw [String.toList_join]
  induction count with
  | zero => rfl
  | succ count previous =>
    rw [List.replicate_succ, List.flatMap_cons, previous, String.toList_ofList]
    rfl

theorem toList_spaces (count : Nat) : (spaces count).toList = List.replicate count ' ' :=
  toList_repeated ' ' count

theorem toList_tildes (count : Nat) : (tildes count).toList = List.replicate count '~' :=
  toList_repeated '~' count

theorem spaces_add (first second : Nat) : spaces (first + second) = spaces first ++ spaces second := by
  rw [← String.toList_inj, String.toList_append]
  simp only [toList_spaces, List.replicate_add]

/-- A diagnosis is a marked line. -/
theorem diagnosis_eq_markedLines [Host] {error : Error} {before after : List Char} {line : String}
    {column : Nat} (lineIn : Text.LineIn error.source.toList before line.toList after)
    (start : error.start = (before.length + column : Nat)) (inside : column ≤ line.length)
    (style : Style) (colored : Bool) :
    error.diagnosis style colored = .ok (markedLines (style.paint colored) line column
      (error.markWidth (before.length + line.length))) := by
  have column_le : column ≤ line.toList.length := by rwa [String.length_toList]
  have width : error.markWidth (before.length + line.length) =
      error.markWidth (before.length + line.toList.length) := by
    rw [String.length_toList]
  rw [diagnosis_eq lineIn start column_le width style colored, markedLines, spaces_add]
  have indent : spaces 2 = "  " := by decide
  rw [indent]
  simp only [String.append_assoc]

/-- Without paint, the line is shown as it is. -/
theorem markedLines_id (line : String) (column width : Nat) :
    markedLines id line column width =
      "  " ++ line ++ "\n" ++ (spaces (2 + column) ++ ("^" ++ tildes (width - 1))) := by
  have pieces := Text.ofList_pieces line.toList column width
  rw [String.ofList_toList] at pieces
  rw [← pieces]
  simp only [markedLines, id, String.append_assoc, pieces]

/-- A marked line is two lines of text. -/
theorem splitLines_markedLines {line : String} (unbroken : '\n' ∉ line.toList) (column width : Nat) :
    Text.splitLines (markedLines id line column width) =
      ["  " ++ line, spaces (2 + column) ++ ("^" ++ tildes (width - 1))] := by
  have joined : markedLines id line column width =
      Chunk.joinLines ["  " ++ line, spaces (2 + column) ++ ("^" ++ tildes (width - 1))] := by
    rw [markedLines_id, ← List.singleton_append, Chunk.joinLines_append (by simp) (by simp),
      Chunk.joinLines_singleton, Chunk.joinLines_singleton]
  rw [joined]
  refine Text.splitLines_joinLines (by simp) ?_
  simp [unbroken, toList_spaces, toList_tildes]

/-- What is marked and the mark are the only parts of a marked line that are painted. -/
theorem markedLines_parts (line : String) (column width : Nat) :
    ∃ first second : String, ∀ paint, markedLines paint line column width =
      first ++ paint (String.ofList ((line.toList.drop column).take width)) ++ second ++
        paint ("^" ++ tildes (width - 1)) := by
  refine ⟨"  " ++ String.ofList (line.toList.take column),
    String.ofList (line.toList.drop (column + width)) ++ "\n" ++ spaces (2 + column), fun paint => ?_⟩
  simp only [markedLines, String.append_assoc]

/-- Deleting the escape sequences from a painted marked line gives the one without paint, if there are none
in the line itself. -/
theorem withoutSequences_markedLines {line : String} (free : '\x1b' ∉ line.toList)
    {paint : String → String} {opening closing : String} (opens : Sequences opening.toList)
    (closes : Sequences closing.toList) (painted : ∀ text, paint text = opening ++ text ++ closing)
    (column width : Nat) :
    Style.withoutSequences false (markedLines paint line column width).toList =
      (markedLines id line column width).toList := by
  have freePlain : '\x1b' ∉ (markedLines id line column width).toList := by
    rw [markedLines_id]
    simp [free, toList_spaces, toList_tildes]
  obtain ⟨first, second, parts⟩ := markedLines_parts line column width
  generalize String.ofList ((line.toList.drop column).take width) = marked at parts
  generalize "^" ++ tildes (width - 1) = mark at parts
  rw [parts] at freePlain
  simp only [id, String.toList_append, List.mem_append, not_or] at freePlain
  obtain ⟨⟨⟨freeFirst, freeMarked⟩, freeSecond⟩, freeMark⟩ := freePlain
  have ended := Style.withoutSequences_between freeMark opens closes []
  rw [List.append_nil] at ended
  rw [parts, parts, painted marked, painted mark]
  rw [String.toList_append, String.toList_append, String.toList_append, List.append_assoc,
    List.append_assoc, Style.withoutSequences_append freeFirst,
    Style.withoutSequences_between freeMarked opens closes,
    Style.withoutSequences_append freeSecond, ended]
  simp [Style.withoutSequences]

/-- **A diagnosis shows the line of its error and marks the span.** For every error that begins in its
source or at its end, wherever it ends, the diagnosis without colours is two lines. The first one, behind two
spaces, is the line of the source that has as many lines above it as there are line breaks in front of the
error. The second one has a caret below the column where the error begins and tildes below the other columns
of the span, which has at least one column and goes no further than the line. With colours the same text is
printed with the escape sequences of the host put in around what is marked and around the mark. So it is
left when these are deleted, and when all escape sequences are if there are none in the source itself. -/
theorem diagnosis_marks_span [Host] (error : Error) (style : Style) (natural : 0 ≤ error.start)
    (inside : error.start ≤ error.source.length) :
    let lines := Text.splitLines error.source
    let number := (error.source.toList.take error.start.toNat).count '\n'
    let lineStart := Text.beginning lines number
    ∃ line, lines[number]? = some line ∧
      lineStart ≤ error.start ∧ error.start ≤ lineStart + line.length ∧
      let column := (error.start - lineStart).toNat
      let width := (max 1 (min error.stop (lineStart + line.length) - error.start)).toNat
      let marked := String.ofList ((line.toList.drop column).take width)
      let mark := "^" ++ tildes (width - 1)
      ∃ plain styled, error.diagnosis style false = .ok plain ∧
        Text.splitLines plain = ["  " ++ line, spaces (2 + column) ++ mark] ∧
        error.diagnosis style true = .ok styled ∧
        (∃ opening closing first second, Sequences opening.toList ∧ Sequences closing.toList ∧
          plain = first ++ marked ++ second ++ mark ∧
          styled = first ++ (opening ++ marked ++ closing) ++ second ++
            (opening ++ mark ++ closing)) ∧
        ('\x1b' ∉ error.source.toList →
          Style.withoutSequences false styled.toList = plain.toList) := by
  intro lines number lineStart
  obtain ⟨offset, start⟩ := Int.eq_ofNat_of_zero_le natural
  have within : offset ≤ error.source.length := by omega
  obtain ⟨line, column, before, after, found, lineIn, begins, distance, column_le⟩ :=
    Text.exists_line within
  have same : error.start.toNat = offset := by omega
  have numbered : number = (error.source.toList.take offset).count '\n' := by rw [← same]
  rw [← numbered] at found begins
  change before.length = lineStart at begins
  have place : error.start = (before.length + column : Nat) := by rw [start, distance]
  have columns : (error.start - lineStart).toNat = column := by omega
  have width : error.markWidth (before.length + line.length) =
      (max 1 (min error.stop (lineStart + line.length) - error.start)).toNat := by
    rw [markWidth, begins, Int.natCast_add]
  have shown := diagnosis_eq_markedLines lineIn place column_le style
  rw [width] at shown
  have unpainted : style.paint false = id := funext style.paint_uncolored
  obtain ⟨opening, closing, opens, closes, painted⟩ := Host.paint_colored style
  refine ⟨line, found, by omega, by omega, ?_⟩
  rw [columns]
  refine ⟨_, _, shown false, ?_, shown true, ?_, fun free => ?_⟩
  · rw [unpainted]
    exact splitLines_markedLines lineIn.unbroken _ _
  · obtain ⟨first, second, parts⟩ := markedLines_parts line column
      (max 1 (min error.stop (lineStart + line.length) - error.start)).toNat
    refine ⟨opening, closing, first, second, opens, closes, ?_, ?_⟩
    · rw [unpainted]
      exact parts id
    · rw [parts, ← painted, ← painted]
      rfl
  · rw [unpainted]
    refine withoutSequences_markedLines (fun member => free ?_) opens closes painted _ _
    rw [lineIn.whole]
    simp [member]

/-- A span that goes on behind its line, which is neither the first nor the last one. -/
theorem diagnosis_marks_span_long :
    let error : Error :=
      { kind := .unbalanced, source := "(a\n  )b\n\n", start := 5, stop := 100 }
    0 ≤ error.start ∧ error.start ≤ error.source.length ∧
      error.diagnosis Style.error false = .ok "    )b\n    ^~" ∧
      ∃ styled, error.diagnosis Style.error true = .ok styled ∧
        Style.withoutSequences false styled.toList = "    )b\n    ^~".toList := by
  intro error
  have natural : 0 ≤ error.start := by decide
  have inside : error.start ≤ error.source.length := by decide
  obtain ⟨line, found, _, _, plain, styled, shown, lines, painted, _, bare⟩ :=
    diagnosis_marks_span error Style.error natural inside
  have number : (error.source.toList.take error.start.toNat).count '\n' = 1 := by decide +kernel
  have lineStart : Text.beginning (Text.splitLines error.source) 1 = 3 := by decide +kernel
  have second : (Text.splitLines error.source)[1]? = some "  )b" := by decide +kernel
  rw [number, second] at found
  obtain rfl : "  )b" = line := Option.some.inj found
  rw [number, lineStart] at lines
  have whole : plain = "    )b\n    ^~" := by
    have joined := Text.joinLines_splitLines plain
    rw [lines] at joined
    rw [← joined]
    decide +kernel
  subst whole
  exact ⟨natural, inside, shown, styled, painted, bare (by decide +kernel)⟩

end Error

end Lisplet
