import Lisplet.Proofs.Cutting
import Lisplet.Proofs.Diagnoses
import Lisplet.Proofs.FileRuns
import Lisplet.Proofs.RoundTrip

/-!
Strings over several lines.

A text without quotes and backslashes can be written between quotes as it is, over several lines if it has
line breaks. A shell is given these lines one by one and keeps them until the closing quote. As long as it
takes none of them for a request, and none of them has blanks around it, nothing of the text is lost.

* `Text.literal`: a text between quotes.
* `Text.joinLines_lines`: a text is made up of its lines.
* `Chunk.pending_literal`: the lines of a literal wait for the last one.
* `Chunk.split_literal`: as a file, a literal is a single chunk.
* `Session.Ready`: a session that has nothing to do.
* `Shell.opened`, `Shell.run_mapM_opened`: a shell that is given lines that wait for a further one.
* `Shell.run_mapM_literal`: a shell that is given the lines of a literal.
* `Shell.string_survives_lines`: typed line by line, a literal is read as the text between its quotes.
-/

namespace Lisplet

/-! ### Literals -/

namespace Text

/-- A text between quotes. -/
def literal (text : String) : String :=
  "\"" ++ text ++ "\""

/-- The characters that stand for themselves in a string. -/
def IsPlain (chars : List Char) : Prop :=
  ∀ char ∈ chars, char ≠ '"' ∧ char ≠ '\\'

instance (chars : List Char) : Decidable (IsPlain chars) :=
  List.decidableBAll _ chars

theorem toList_literal (text : String) : (literal text).toList = '"' :: (text.toList ++ ['"']) := by
  simp [literal]

theorem literal_ne_empty (text : String) : literal text ≠ "" := by
  intro empty
  have chars := toList_literal text
  simp [empty] at chars

theorem IsPlain.spells {chars : List Char} (plain : IsPlain chars) : Spells chars chars := by
  induction chars with
  | nil => exact .nil
  | cons char chars previous =>
    obtain ⟨notQuote, notSlash⟩ := plain char List.mem_cons_self
    exact .plain notQuote notSlash (previous fun other member => plain other (List.mem_cons_of_mem _ member))

end Text

open Text (IsPlain literal)

/-- A text of which the tokens deliver items is read as these. -/
theorem Delivers.ofText {text : String} {levels : Nat} {items : List Expr}
    (delivers : Delivers text.toList levels items) {limit : Int} (room : HasRoom limit 0 levels) :
    (Reading.ofText limit text).forms = items ∧ (Reading.ofText limit text).flaw = none := by
  obtain ⟨flawless, feeds⟩ := delivers 0
  have fed := feeds limit {} room
  obtain ⟨forms, flaw⟩ := Cursor.readAll_of_fed fed
  refine ⟨forms.trans ?_, flaw.trans (if_pos ⟨?_, rfl⟩)⟩
  · simp [Nest.forms, Nest.pushAll]
  · rw [flawless]
    rfl

/-- A literal is read as the text between its quotes. -/
theorem ofText_literal {text : String} (plain : IsPlain text.toList) (limit : Int) :
    (Reading.ofText limit (literal text)).forms = [.string text] ∧
      (Reading.ofText limit (literal text)).flaw = none := by
  have delivers := plain.spells.delivers
  rw [← Text.toList_literal, String.ofList_toList] at delivers
  exact delivers.ofText (.inl rfl)

theorem isIncomplete_literal {text : String} (plain : IsPlain text.toList) :
    isIncomplete (literal text) = false := by
  rw [Bool.eq_false_iff]
  intro incomplete
  obtain ⟨flaw, found, _⟩ := flaw_of_incomplete incomplete
  exact nomatch (ofText_literal plain 0).2.symm.trans found

/-- Without its closing quote a literal is incomplete. -/
theorem isIncomplete_open {code : String} {chars : List Char} (quoted : code.toList = '"' :: chars)
    (plain : IsPlain chars) : isIncomplete code = true := by
  have blank : ∀ char ∈ ([] : List Char), isSpacing char = true := by simp
  have scans : Scans ⟨0, [] ++ '"' :: chars⟩ _ :=
    .flawed blank ⟨'"', chars, rfl, rfl⟩ (.openString plain.spells)
  have same : Scan.ofText code = Cursor.scan ⟨0, [] ++ '"' :: chars⟩ := by
    rw [Scan.ofText, Cursor.ofText, quoted]
    rfl
  rw [isIncomplete, same, scans.scan_eq]
  rfl

/-! ### The lines of a literal -/

namespace Text

theorem linesFrom_ne_nil {line chars : List Char} (some : line ++ chars ≠ []) :
    linesFrom line chars ≠ [] := by
  fun_induction linesFrom line chars with
  | case1 line empty => simp_all
  | case2 line nonempty => simp
  | case3 line rest _ => simp
  | case4 line char rest notBreak previous => exact previous (by simp)

theorem toList_joinLines_linesFrom {line chars : List Char}
    (ends : (line.reverse ++ chars).getLast? ≠ some '\n') :
    (Chunk.joinLines (linesFrom line chars)).toList = line.reverse ++ chars := by
  fun_induction linesFrom line chars with
  | case1 line empty => simp_all [Chunk.joinLines]
  | case2 line nonempty => simp [Chunk.joinLines_singleton]
  | case3 line rest previous =>
    cases rest with
    | nil => simp at ends
    | cons char rest =>
      rw [Chunk.toList_joinLines_cons _ (linesFrom_ne_nil (by simp)), previous, String.toList_ofList]
      · simp
      · simpa [List.getLast?_append, List.getLast?_cons_cons] using ends
  | case4 line char rest notBreak previous =>
    rw [previous]
    · simp
    · simpa using ends

/-- A text that does not end with a line break is made up of its lines. -/
theorem joinLines_lines {text : String} (ends : text.toList.getLast? ≠ some '\n') :
    Chunk.joinLines (lines text) = text :=
  String.toList_injective (toList_joinLines_linesFrom ends)

theorem joinLines_lines_literal (text : String) : Chunk.joinLines (lines (literal text)) = literal text := by
  refine joinLines_lines ?_
  rw [toList_literal, ← List.cons_append, List.getLast?_concat]
  simp

end Text

namespace Chunk

/-- What comes before a break in a literal is open. -/
theorem isIncomplete_of_break {text : String} (plain : IsPlain text.toList) {first second : String}
    (broken : literal text = first ++ "\n" ++ second) : isIncomplete first = true := by
  have chars := congrArg String.toList broken
  rw [Text.toList_literal, String.toList_append, String.toList_append, List.append_assoc] at chars
  cases front : first.toList with
  | nil => simp [front] at chars
  | cons char inside =>
    rw [front, List.cons_append, List.cons.injEq] at chars
    obtain ⟨rfl, chars⟩ := chars
    refine isIncomplete_open front fun other member => plain other ?_
    -- The break is no closing quote, so the text goes on at least up to it.
    obtain ⟨more, _, closing⟩ | ⟨more, whole, _⟩ := List.append_eq_append_iff.mp chars
    · cases more <;> simp at closing
    · rw [whole]
      exact List.mem_append_left more member

/-- The lines of a literal wait for the last one. -/
theorem pending_literal {text : String} (plain : IsPlain text.toList) {front rest : List String}
    (cut : Text.lines (literal text) = front ++ rest) (more : rest ≠ []) : Pending front := by
  intro count positive short
  have beginning : front.take count ≠ [] := by
    rw [ne_eq, List.take_eq_nil_iff]
    rintro (none | rfl)
    · omega
    · exact absurd short (by simpa using positive.ne')
  have joined : literal text =
      joinLines (front.take count) ++ "\n" ++ joinLines (front.drop count ++ rest) := by
    rw [← joinLines_append beginning (List.append_ne_nil_of_right_ne_nil _ more), ← List.append_assoc,
      List.take_append_drop, ← cut, Text.joinLines_lines_literal]
  exact isIncomplete_of_break plain joined

/-- A beginning of lines that wait for a further one waits for one, too. -/
theorem Pending.front {front rest : List String} (pending : Pending (front ++ rest)) :
    Pending front := by
  intro count positive short
  have whole := pending count positive (by rw [List.length_append]; omega)
  rwa [List.take_append_of_le_length short] at whole

/-- Lines that wait for the last one are one group with it. -/
theorem groupsFrom_of_pending {group lines : List String} {last : String}
    (waiting : Pending (group ++ lines))
    (complete : isIncomplete (joinLines (group ++ lines ++ [last])) = false) :
    groupsFrom group (lines ++ [last]) = [group ++ lines ++ [last]] := by
  induction lines generalizing group with
  | nil =>
    rw [List.append_nil] at complete
    simp [groupsFrom, complete]
  | cons line lines previous =>
    rw [List.append_cons group] at waiting complete ⊢
    have incomplete := waiting.front.incomplete (by simp)
    rw [List.cons_append, groupsFrom, if_pos incomplete]
    exact previous waiting complete

/-- The last line of a literal, and those in front of it. -/
theorem exists_lines_literal (text : String) :
    ∃ front last, Text.lines (literal text) = front ++ [last] := by
  have some : Text.lines (literal text) ≠ [] := by
    refine Text.linesFrom_ne_nil ?_
    simp [Text.toList_literal]
  exact ⟨_, _, (List.dropLast_concat_getLast some).symm⟩

/-- A file that holds a literal has it as its only chunk. -/
theorem split_literal {text : String} (plain : IsPlain text.toList) :
    split (Text.lines (literal text)) = [⟨literal text, 1⟩] := by
  have whole := Text.joinLines_lines_literal text
  have groups : groupsFrom [] (Text.lines (literal text)) = [Text.lines (literal text)] := by
    obtain ⟨front, last, cut⟩ := exists_lines_literal text
    have waiting := pending_literal plain cut (by simp)
    rw [cut] at whole ⊢
    exact groupsFrom_of_pending waiting (by rw [List.nil_append, whole, isIncomplete_literal plain])
  have shown : (Text.strip (literal text)).isEmpty = false := by
    rw [Bool.eq_false_iff, ne_eq, Text.strip_isEmpty_iff, Text.toList_literal]
    exact fun blank => absurd (blank '"' List.mem_cons_self) (by decide)
  rw [split_eq_ofGroups (Text.newlineFree_lines _), groups]
  simp [ofGroups, whole, shown]

end Chunk

/-! ### The value of a literal -/

/-- A string is its own value, and nothing else comes of it. -/
theorem interpret_string [Host] {settings : Settings} (roomy : 0 ≤ settings.limit) (store : Store)
    (text : String) :
    interpret settings store [.string text] = { values := [.string text], store } := by
  obtain ⟨room, levels⟩ := Nat.exists_eq_succ_of_ne_zero Host.stackLevels_pos.ne'
  rw [interpret, Expr.eval, levels, Expr.evalWithin_below roomy]
  rfl

namespace Session

open Lisplet.Action

/-- A session that has nothing to do and may evaluate something. -/
structure Ready (session : Session) : Prop where
  idle : session.console.passages = [(session.path, none)]
  vacant : session.queue = []
  fresh : session.results = #[]
  roomy : 0 ≤ session.limit.number

variable {session : Session} {text : String}

theorem ready_start (colored : Bool) (path : String) (interactive : Bool) {limit : Limit}
    (roomy : 0 ≤ limit.number) (traced : Bool) :
    (start { colored } path interactive limit traced).Ready :=
  ⟨rfl, rfl, rfl, roomy⟩

/-- A string in the queue is printed. -/
theorem Ready.run_runAndShow_string [Host] (ready : session.Ready) (passage : Passage) :
    runAndShow.run { session with queue := [⟨passage, .string text⟩] } =
      (.ok (), session.telling [Expr.quoteString text]) := by
  let queued : Session := { session with queue := [⟨passage, .string text⟩] }
  obtain ⟨lines, shown, shows, _⟩ := run_runAndShow queued ready.idle ready.fresh
  have value : interpret queued.settings queued.store (queued.queue.map Queued.form) =
      { values := [.string text], store := session.store } :=
    interpret_string ready.roomy session.store text
  rw [value] at shown shows
  cases shown
  refine (shows [Expr.quoteString text] rfl).trans ?_
  simp [Interpretation.outcome, ran, evaluated, telling, placed, queued, Console.writeLines,
    ← ready.idle, ready.vacant, ready.fresh]

theorem Ready.receiving (ready : session.Ready) (passage : Passage) :
    (session.receiving passage).Ready :=
  ⟨ready.idle, ready.vacant, ready.fresh, ready.roomy⟩

/-- A literal is queued as the text between its quotes. -/
theorem Ready.run_add_literal (ready : session.Ready) (plain : IsPlain text.toList) (line : Int) :
    (add (literal text) line).run session =
      (.ok [.string text],
        { session.receiving ⟨literal text, line⟩ with
          queue := [⟨⟨literal text, line⟩, .string text⟩] }) := by
  obtain ⟨forms, flawless⟩ := ofText_literal plain session.limit.number
  rw [run_add_of_flawless ⟨none, ready.idle⟩ line flawless, forms]
  simp [placed, Session.receiving, ← ready.idle, ready.vacant]

/-- So it is from a file. -/
theorem Ready.run_load_literal [Host] (ready : session.Ready) (plain : IsPlain text.toList)
    (named : session.path ≠ interactivePath) {content : Option (List Nat)}
    (readable : decodeFile session.path content = .ok (literal text)) :
    (load content).run session =
      (.ok (),
        { session.receiving ⟨literal text, 1⟩ with
          queue := [⟨⟨literal text, 1⟩, .string text⟩] }) := by
  rw [run_load session ready.idle named readable, Chunk.split_literal plain, if_neg (by simp),
    run_addChunks_cons, ready.run_add_literal plain]
  rfl

/-- A shell that runs a literal prints it. -/
theorem Ready.run_guarded_literal [Host] (ready : session.Ready) (plain : IsPlain text.toList)
    (line : Nat) :
    (guarded (Shell.runChunk (literal text) line)).run session =
      (.ok (), (session.receiving ⟨literal text, line⟩).telling [Expr.quoteString text]) := by
  obtain ⟨forms, flawless⟩ := ofText_literal plain session.limit.number
  have entered : session.entered (literal text) line =
      { session.receiving ⟨literal text, line⟩ with
        queue := [⟨⟨literal text, line⟩, .string text⟩] } := by
    simp [Session.entered, placed, Session.receiving, forms, ready.fresh, ← ready.idle]
  rw [run_guarded, run_runChunk_of_flawless ⟨none, ready.idle⟩ line flawless, entered,
    (ready.receiving _).run_runAndShow_string]

end Session

/-! ### Lines that are kept -/

namespace Shell

open Lisplet.Action
open Chunk (Pending joinLines)

variable (session : Session) {group : List String} {line : String}

/-- A shell that keeps all the lines it was given. -/
def opened (session : Session) (group : List String) : Shell :=
  { session
    prompt := if group = [] then primaryPrompt else secondaryPrompt
    pending := joinLines group
    firstLine := if group = [] then 0 else 1
    lineCount := group.length }

/-- A line that is no request and has no blanks around it. -/
def IsBare (line : String) : Prop :=
  isRequest line = false ∧ Text.strip line = line

instance (line : String) : Decidable (IsBare line) :=
  inferInstanceAs (Decidable (isRequest line = false ∧ Text.strip line = line))

theorem countLine_opened (waiting : Pending group) :
    (opened session group).countLine =
      { opened session group with firstLine := 1, lineCount := group.length + 1 } := by
  by_cases none : group = []
  · subst none
    rfl
  · simp [countLine, opened, waiting.isEmpty_iff, none]

theorem joined_opened (waiting : Pending group) (bare : IsBare line) :
    (opened session group).joined line = joinLines (group ++ [line]) := by
  rw [joined, bare.2]
  exact waiting.joinLine_eq line

/-- A bare line is source text as it is. -/
theorem sourceOf?_opened (waiting : Pending group) (bare : IsBare line)
    (code : joinLines (group ++ [line]) ≠ "") :
    (opened session group).sourceOf? line = some (Text.strip line) := by
  cases source : (opened session group).sourceOf? line with
  | some text => rw [strip_of_sourceOf? source]
  | none =>
    obtain ⟨blank, empty⟩ := (sourceOf?_eq_none_iff _ bare.1).mp source
    obtain rfl := waiting.isEmpty_iff.mp empty
    rw [bare.2, String.isEmpty_iff] at blank
    subst blank
    exact absurd (Chunk.joinLines_singleton "") code

theorem ne_empty_of_incomplete {code : String} (incomplete : isIncomplete code = true) : code ≠ "" := by
  rintro rfl
  rw [Chunk.isIncomplete_empty] at incomplete
  cases incomplete

theorem completed?_opened (waiting : Pending group) (bare : IsBare line)
    (code : joinLines (group ++ [line]) ≠ "") :
    (opened session group).completed? line =
      if isIncomplete (joinLines (group ++ [line])) then none
      else some (joinLines (group ++ [line]), 1) := by
  have completed : (opened session group).completed? line =
      if isIncomplete ((opened session group).joined line) then none
      else some ((opened session group).joined line, (opened session group).countLine.firstLine) := by
    rw [completed?, sourceOf?_opened session waiting bare code]
    rfl
  rw [completed, joined_opened session waiting bare, countLine_opened session waiting]

/-- A line that leaves a form open is kept. -/
theorem run_respond_opened [Host] (waiting : Pending (group ++ [line])) (bare : IsBare line) :
    (respond line).run (opened session group) = (.ok .handled, opened session (group ++ [line])) := by
  have incomplete := waiting.incomplete (by simp)
  have source := sourceOf?_opened session waiting.front bare (ne_empty_of_incomplete incomplete)
  rw [← joined_opened session waiting.front bare] at incomplete
  rw [(Answers.kept source incomplete).run_eq, joined_opened session waiting.front bare,
    countLine_opened session waiting.front]
  simp [opened]

/-- By induction on the lines. -/
theorem run_mapM_opened [Host] {lines : List String} (waiting : Pending (group ++ lines))
    (bare : ∀ line ∈ lines, IsBare line) :
    (lines.mapM respond).run (opened session group) =
      (.ok (lines.map fun _ => .handled), opened session (group ++ lines)) := by
  induction lines generalizing group with
  | nil =>
    rw [List.append_nil]
    rfl
  | cons line lines previous =>
    rw [List.append_cons] at waiting ⊢
    obtain ⟨first, others⟩ := List.forall_mem_cons.mp bare
    rw [List.mapM_cons, run_bind, run_respond_opened session waiting.front first]
    dsimp only
    rw [run_bind, previous waiting others]
    rfl

/-! ### Literals line by line -/

section

variable {session : Session} {text : String} (plain : IsPlain text.toList)

include plain

/-- A shell keeps the lines of a literal in front of the last one. -/
theorem run_mapM_front [Host] (session : Session) {front rest : List String}
    (cut : Text.lines (literal text) = front ++ rest) (more : rest ≠ [])
    (bare : ∀ line ∈ front, IsBare line) :
    (front.mapM respond).run { session } =
      (.ok (front.map fun _ => .handled), opened session front) := by
  have waiting : Pending ([] ++ front) := Chunk.pending_literal plain cut more
  exact run_mapM_opened session waiting bare

/-- The last line completes a literal. -/
theorem completed?_front (session : Session) {front rest : List String} {line : String}
    (cut : Text.lines (literal text) = front ++ line :: rest) (bare : IsBare line) :
    (opened session front).completed? line =
      if rest = [] then some (literal text, 1) else none := by
  have waiting := Chunk.pending_literal plain cut (by simp)
  by_cases last : rest = []
  · subst last
    have whole : joinLines (front ++ [line]) = literal text := by
      rw [← cut, Text.joinLines_lines_literal]
    have code : joinLines (front ++ [line]) ≠ "" := whole ▸ Text.literal_ne_empty text
    rw [completed?_opened session waiting bare code, whole, isIncomplete_literal plain]
    rfl
  · rw [List.append_cons] at cut
    have incomplete := (Chunk.pending_literal plain cut last).incomplete (by simp)
    rw [completed?_opened session waiting bare (ne_empty_of_incomplete incomplete), if_pos incomplete,
      if_neg last]

/-- The last line of a literal has it run. -/
theorem run_respond_last [Host] (ready : session.Ready) {front : List String} {last : String}
    (cut : Text.lines (literal text) = front ++ [last]) (bare : IsBare last) :
    (respond last).run (opened session front) =
      (.ok .handled,
        { session := (session.receiving ⟨literal text, 1⟩).telling [Expr.quoteString text]
          firstLine := 1
          lineCount := front.length + 1 }) := by
  have completed := completed?_front plain session cut bare
  have waiting := Chunk.pending_literal plain cut (by simp)
  have runs : (Session.guarded (runChunk (literal text) 1)).run (opened session front).session =
      (.ok (), (session.receiving ⟨literal text, 1⟩).telling [Expr.quoteString text]) :=
    ready.run_guarded_literal plain 1
  rw [run_respond_of_completed completed, runs, countLine_opened session waiting]
  rfl

/-- All lines of a literal. -/
theorem run_mapM_literal [Host] (ready : session.Ready)
    (bare : ∀ line ∈ Text.lines (literal text), IsBare line) :
    ((Text.lines (literal text)).mapM respond).run { session } =
      (.ok ((Text.lines (literal text)).map fun _ => .handled),
        { session := (session.receiving ⟨literal text, 1⟩).telling [Expr.quoteString text]
          firstLine := 1
          lineCount := (Text.lines (literal text)).length }) := by
  obtain ⟨front, last, cut⟩ := Chunk.exists_lines_literal text
  rw [cut] at bare ⊢
  obtain ⟨first, closing⟩ := List.forall_mem_append.mp bare
  rw [List.mapM_append, run_bind, run_mapM_front plain session cut (by simp) first]
  dsimp only
  rw [List.mapM_cons, run_bind, run_bind, run_respond_last plain ready cut (closing last (by simp))]
  simp

end

end Shell

/-- A file with a literal is run like the literal. -/
theorem Program.runFile_literal [Host] {text : String} (plain : IsPlain text.toList)
    (colored : Bool)
    {options : CommandLine.Options} (roomy : 0 ≤ (limit options).number) {path : String}
    {content : Option (List Nat)} (named : path ≠ Session.interactivePath)
    (readable : Session.decodeFile path content = .ok (literal text)) :
    runFile colored options path content =
      { result := .ok (), output := Expr.quoteString text ++ "\n" } := by
  have ready := Session.ready_start colored path false roomy options.trace
  have loaded := ready.run_load_literal plain named readable
  rw [runFile, Action.run_bind, loaded]
  dsimp only
  rw [(ready.receiving _).run_runAndShow_string]
  have silent : (Session.start { colored } path false (limit options) options.trace).console.printed = "" :=
    rfl
  simp [conclude, Session.telling, Session.receiving, Console.printed_writeLines, Console.textOf, silent]

namespace Shell

/-- **Strings over several lines survive the shell.** A text has no quotes and no backslashes, and between
quotes no line of it is a request or has blanks around it. A fresh shell is given these lines one by one.
Before the last one its session does not change; with the last one it has the text between quotes, from the
first line on, and this is queued as the string with the text. All lines are dealt with, and what is printed
is the string. A file with the text between quotes is queued as the same string and prints the same. -/
theorem string_survives_lines [Host] (colored : Bool) (options : CommandLine.Options)
    (roomy : 0 ≤ (Program.limit options).number) (text : String) (plain : IsPlain text.toList)
    (bare : ∀ line ∈ Text.lines (literal text), IsBare line) :
    let shell := Program.startShell colored options
    let lines := Text.lines (literal text)
    let queued : Queued := ⟨⟨literal text, 1⟩, .string text⟩
    (∀ front line rest, lines = front ++ line :: rest →
      (shell.after front).session = shell.session ∧
        (shell.after front).completed? line = if rest = [] then some (literal text, 1) else none) ∧
      (Session.add (literal text) 1).run shell.session =
        (.ok [.string text], { shell.session.receiving queued.passage with queue := [queued] }) ∧
      ∃ printed, (Expr.string text).print = .ok printed ∧
        (lines.mapM respond).run shell =
          (.ok (lines.map fun _ => .handled),
            { shell with
              session := (shell.session.receiving queued.passage).telling [printed]
              firstLine := 1
              lineCount := lines.length }) ∧
        ∀ path content, path ≠ Session.interactivePath →
          Session.decodeFile path content = .ok (literal text) →
            let file := Session.start { colored } path false (Program.limit options) options.trace
            (Session.load content).run file =
                (.ok (), { file.receiving queued.passage with queue := [queued] }) ∧
              Program.runFile colored options path content =
                { result := .ok (), output := printed ++ "\n" } := by
  intro shell lines queued
  have ready : shell.session.Ready := Session.ready_start colored _ true roomy options.trace
  refine ⟨fun front line rest cut => ?_, ready.run_add_literal plain 1, Expr.quoteString text, rfl,
    run_mapM_literal plain ready bare, fun path content named readable => ⟨?_, ?_⟩⟩
  · have all := bare
    rw [show Text.lines (literal text) = _ from cut, List.forall_mem_append, List.forall_mem_cons] at all
    obtain ⟨first, next, _⟩ := all
    have kept := run_mapM_front plain shell.session cut (by simp) first
    rw [(standing_of_answered (standing_startShell colored options) kept).1]
    exact ⟨rfl, completed?_front plain shell.session cut next⟩
  · exact (Session.ready_start colored path false roomy options.trace).run_load_literal plain named
      readable
  · exact Program.runFile_literal plain colored roomy named readable

/-- A text over four lines, of which the second one is empty and the third one looks like a form. -/
theorem string_survives_lines_empty_line :
    let text := "a  b\n\n(helper 1) ; ?\n'c'"
    let octets := (literal text).toList.map Char.toNat
    let session := (Program.startShell false {}).session.receiving ⟨literal text, 1⟩
    ((Text.lines (literal text)).mapM respond).run (Program.startShell false {}) =
        (.ok [.handled, .handled, .handled, .handled],
          { Program.startShell false {} with
            session := session.telling ["\"a  b\\n\\n(helper 1) ; ?\\n'c'\""]
            firstLine := 1
            lineCount := 4 }) ∧
      Program.runFile false {} "f" (some octets) =
        { result := .ok (), output := "\"a  b\\n\\n(helper 1) ; ?\\n'c'\"\n" } := by
  intro text octets session
  have plain : IsPlain text.toList := by decide +kernel
  have bare : ∀ line ∈ Text.lines (literal text), IsBare line := by decide +kernel
  have readable : Session.decodeFile "f" (some octets) = .ok (literal text) := by decide +kernel
  obtain ⟨_, _, printed, shown, typed, read⟩ :=
    string_survives_lines false {} (by decide) text plain bare
  obtain rfl : "\"a  b\\n\\n(helper 1) ; ?\\n'c'\"" = printed := by
    refine Except.ok.inj (Eq.trans ?_ shown)
    decide +kernel
  have lines : Text.lines (literal text) = ["\"a  b", "", "(helper 1) ; ?", "'c'\""] := by decide +kernel
  rw [lines] at typed ⊢
  exact ⟨typed, (read "f" (some octets) (by decide) readable).2⟩

/-- Blanks at the end of a line are lost, and so is a line that asks for help, for which the help is
printed instead. In a file a carriage return becomes a line break. -/
theorem string_loses_blanks_and_requests :
    let entered := fun text =>
      ((Text.lines (literal text)).mapM respond).run (Program.startShell false {})
    let octets := (literal "a\rb").toList.map Char.toNat
    (entered "a \nb").2.session.console.printed = "\"a\\nb\"\n" ∧
      (Expr.string "a \nb").print = .ok "\"a \\nb\"" ∧
      (entered "a\nhelp\nb").2.session.console.printed = helpText ++ "\n\"a\\nb\"\n" ∧
      (Expr.string "a\nhelp\nb").print = .ok "\"a\\nhelp\\nb\"" ∧
      (entered "a\rb").2.session.console.printed = "\"a\rb\"\n" ∧
      (Program.runFile false {} "f" (some octets)).output = "\"a\\nb\"\n" := by
  decide +kernel

end Shell

end Lisplet
