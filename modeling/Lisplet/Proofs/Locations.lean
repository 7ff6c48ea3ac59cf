import Lisplet.Proofs.Diagnoses
import Lisplet.Proofs.FirstFlaw
import Lisplet.Proofs.Ledger
import Lisplet.Proofs.Leftovers

/-!
Reported locations are true file locations.

A file is read chunk by chunk, and an error is located in the text of its chunk. The report of the error
nevertheless names the line of the file: the number of the first line of the chunk is counted on by the
line breaks in front of the error, and the line that is shown is found in the chunk. Both agree with
the lines of the file, wherever blank lines, strings over several lines and the end of the file stand.

* `Chunk.FoundAt`: the line of a file and the column on which an offset of a chunk lies.
* `Chunk.exists_foundAt`: every offset of a chunk lies on a line of the file.
* `Session.load_failed`: a file that cannot be read fails in one of its chunks.
* `Console.current?_assign`: the console is at the passage that was registered last.
* `Console.reportLines_of_lineIn`: the lines of a report.
* `Session.load_reports_file_location`: the report names the line of the file, and shows it.
-/

namespace Lisplet

/-! ### Lines of a file -/

namespace Chunk

/-- A chunk is made of consecutive lines and has the number of the first of them. -/
theorem exists_lines_of_mem_ofGroups {number : Nat} {groups : List (List String)} {chunk : Chunk}
    (nonempty : ∀ group ∈ groups, group ≠ []) (member : chunk ∈ ofGroups number groups) :
    ∃ front group back, groups.flatten = front ++ group ++ back ∧ group ≠ [] ∧
      chunk = ⟨joinLines group, number + front.length⟩ := by
  induction groups generalizing number with
  | nil => cases member
  | cons group groups previous =>
    have later : chunk ∈ ofGroups (number + group.length) groups →
        ∃ front inner back, (group :: groups).flatten = front ++ inner ++ back ∧ inner ≠ [] ∧
          chunk = ⟨joinLines inner, number + front.length⟩ := by
      intro behind
      obtain ⟨front, inner, back, split, filled, rfl⟩ :=
        previous (fun other inside => nonempty other (List.mem_cons_of_mem _ inside)) behind
      refine ⟨group ++ front, inner, back, ?_, filled, ?_⟩
      · rw [List.flatten_cons, split]
        simp
      · rw [List.length_append, Nat.add_assoc]
    rw [ofGroups] at member
    split at member
    · exact later member
    · obtain rfl | behind := List.mem_cons.mp member
      · exact ⟨[], group, groups.flatten, rfl, nonempty group List.mem_cons_self, rfl⟩
      · exact later behind

/-- An offset of a chunk of a file lies on the line with the given number, counted from one, at a column:
the chunk is made of consecutive lines of the file, and the offset lies on one of them. -/
def FoundAt (lines : List String) (chunk : Chunk) (offset number : Nat) (line : String)
    (column : Nat) : Prop :=
  ∃ front group back above below, lines = front ++ group ++ back ∧
    chunk = ⟨joinLines group, front.length + 1⟩ ∧ LiesOn group offset above line below column ∧
      number = front.length + above.length + 1

/-- Every offset of a chunk lies on a line of the file. -/
theorem exists_foundAt {lines : List String} (newlineFree : ∀ line ∈ lines, '\n' ∉ line.toList)
    {chunk : Chunk} (member : chunk ∈ split lines) {offset : Nat}
    (within : offset ≤ chunk.code.toList.length) :
    ∃ number line column, FoundAt lines chunk offset number line column := by
  rw [split_eq_ofGroups newlineFree] at member
  have nonempty : ∀ group ∈ groupsFrom [] lines, group ≠ [] :=
    fun group inside => (grown_of_mem_groupsFrom pending_nil inside).ne_nil
  obtain ⟨front, group, back, whole, filled, rfl⟩ := exists_lines_of_mem_ofGroups nonempty member
  rw [flatten_groupsFrom, List.nil_append] at whole
  obtain ⟨above, line, below, column, lies⟩ := exists_liesOn filled within
  refine ⟨front.length + above.length + 1, line, column, front, group, back, above, below, whole, ?_,
    lies, rfl⟩
  rw [Nat.add_comm]

namespace FoundAt

variable {lines : List String} {chunk : Chunk} {offset number column : Nat} {line : String}

/-- The line is the one of the file with that number. -/
theorem getElem?_eq (found : FoundAt lines chunk offset number line column) :
    lines[number - 1]? = some line := by
  obtain ⟨front, group, back, above, below, rfl, _, lies, rfl⟩ := found
  rw [lies.split, Nat.add_sub_cancel, List.append_assoc, List.append_assoc,
    List.getElem?_append_right (by omega), Nat.add_sub_cancel_left,
    List.getElem?_append_right (by omega), Nat.sub_self]
  rfl

/-- Where the input ended, the column is behind the last one of its line. -/
theorem column_of_end {limit : Int} {flaw : Flaw}
    (found : FoundAt lines chunk flaw.start number line column)
    (read : (Reading.ofText limit chunk.code).flaw = some flaw)
    (ended : flaw.cause = .endOfInput) : column = line.length := by
  obtain ⟨front, group, back, above, below, _, rfl, lies, _⟩ := found
  have points := (Reading.pointsInto_of_flaw read).2
  rw [ended] at points
  exact (lies.column_of_end points).1

end FoundAt

end Chunk

/-! ### Files that cannot be read -/

namespace Session

open Lisplet.Action

variable {session : Session} {content : Option (List Nat)} {error : Error}

/-- Chunks that cannot all be read: the session stays at the first one with a flaw. -/
theorem addChunks_failed [Host] {chunks : List Chunk} {fault : Fault}
    (failed : ((addChunks chunks).run session).1 = .error fault) :
    ∃ chunk flaw queue received,
      (Chunk.readChunks session.limit.number chunks).2 = some (chunk, flaw) ∧
      fault = session.limit.amend (.error (flaw.toError chunk.code)) ∧
        ((addChunks chunks).run session).2 =
          { session with queue, received }.locatedAt (some ⟨chunk.code, chunk.line⟩) := by
  induction chunks generalizing session with
  | nil => exact nomatch failed
  | cons chunk chunks previous =>
    have added := run_add session chunk.code chunk.line
    rw [run_addChunks_cons] at failed ⊢
    cases read : (Reading.ofText session.limit.number chunk.code).flaw with
    | some flaw =>
      simp only [read] at added
      rw [added] at failed ⊢
      cases failed
      exact ⟨chunk, flaw, session.queue, _, by simp only [Chunk.readChunks, read], rfl, rfl⟩
    | none =>
      simp only [read] at added
      rw [added] at failed ⊢
      obtain ⟨later, flaw, queue, received, found, said, ended⟩ := previous failed
      have behind : (Chunk.readChunks session.limit.number (chunk :: chunks)).2 =
          (Chunk.readChunks session.limit.number chunks).2 := by
        simp only [Chunk.readChunks, read]
      refine ⟨later, flaw, queue, received, behind.trans found, said, ?_⟩
      rw [ended]
      exact locatedAt_locatedAt { session with queue, received } none _

/-- The warning about a file without forms can always be printed. -/
theorem warn_ok [Host] (console : Console) (message : String) :
    ∃ after, (Console.warn { Error.general message with diagnosed := false }).run console =
      (.ok (), after) := by
  have sound : Error.Sound { Error.general message with diagnosed := false } :=
    ⟨rfl, fun shown => by simp [Error.isDiagnosed] at shown⟩
  obtain ⟨lines, announced⟩ : ∃ lines, console.announcement
      { Error.general message with diagnosed := false } Style.warning
        (Style.warning.paint console.colored "warning: ") = .ok lines :=
    Console.announcement_ok sound rfl _ _
  refine ⟨console.writeLines lines, ?_⟩
  simp only [Console.warn, run_bind, run_get, Console.run_announce announced]

theorem not_isOfReading_of_decodeFile {path : String}
    (failed : decodeFile path content = .error (.error error)) : ¬ error.IsOfReading := by
  unfold decodeFile at failed
  split at failed
  · cases failed
  · split at failed
    · cases failed
      simp [Error.IsOfReading, ErrorKind.ancestors, ErrorKind.parent?]
    · split at failed <;> cases failed

/-- A file that fails with an error of reading does so in one of its chunks, and the session stays
there. -/
theorem load_failed [Host] (failed : ((load content).run session).1 = .error (.error error))
    (reading : error.IsOfReading) :
    ∃ text chunk flaw queue received, decodeFile session.path content = .ok text ∧
      (Chunk.readChunks session.limit.number (Chunk.split (Text.lines text))).2 =
        some (chunk, flaw) ∧
      error = flaw.toError chunk.code ∧
      ((load content).run session).2 =
        { session with queue, received }.locatedAt (some ⟨chunk.code, chunk.line⟩) := by
  have general : ∀ message, ¬ (Error.general message).IsOfReading := by
    simp [Error.IsOfReading, Error.general, ErrorKind.ancestors, ErrorKind.parent?]
  by_cases named : session.path = interactivePath
  · simp only [load, run_bind, run_get, if_pos named] at failed
    split at failed
    · cases failed
    · cases failed
      exact absurd reading (general _)
  simp only [load, run_bind, run_get, if_neg named] at failed ⊢
  cases decoded : decodeFile session.path content with
  | error fault =>
    simp only [decoded] at failed
    cases failed
    exact absurd reading (not_isOfReading_of_decodeFile decoded)
  | ok text =>
    simp only [decoded] at failed ⊢
    by_cases empty : (Chunk.split (Text.lines text)).isEmpty = true
    · obtain ⟨after, warned⟩ := warn_ok session.console ("'" ++ session.path ++ "' contains no forms")
      simp only [List.isEmpty_iff.mp empty, List.isEmpty_nil, if_true, run_bind, run_onConsole,
        warned] at failed
      cases failed
    · rw [if_neg empty] at failed ⊢
      obtain ⟨chunk, flaw, queue, received, found, said, ended⟩ := addChunks_failed failed
      refine ⟨text, chunk, flaw, queue, received, rfl, found, ?_, ended⟩
      obtain same | void := session.limit.amend_eq (.error (flaw.toError chunk.code))
      · rw [same] at said
        exact Fault.error.inj said
      · rw [void] at said
        cases said

end Session

/-! ### Reports -/

/-- Without colours an error is told by its message, if its arguments can be printed. -/
theorem Error.styled_uncolored [Host] {error : Error} {texts : List String}
    (printed : error.args.mapM Arg.print = .ok texts) : error.styled false = error.message := by
  obtain ⟨texts, all, each⟩ | ⟨_, _, _, _, stuck⟩ := mapM_ok_or_error error.args Arg.print
  · rw [styled, message, all, each]
    simp only [Style.paint_uncolored]
    rfl
  · cases printed.symm.trans stuck

/-- Without colours a flaw is told by its message. -/
theorem Flaw.styled_false [Host] (flaw : Flaw) (source : String) :
    (flaw.toError source).styled false = (flaw.toError source).message := by
  rcases flaw with ⟨cause, start, stop⟩
  cases cause <;> exact Error.styled_uncolored rfl

namespace Console

variable {console : Console} {error : Error}

/-- A console that is at no passage of another path is at the one that is registered. -/
theorem current?_assign {entries : List (String × Option Passage)} {path : String}
    (idle : ∀ entry ∈ entries, entry.1 ≠ path → entry.2 = none) (passage : Passage) :
    (assign path (some passage) entries).findSome? (fun entry =>
      entry.2.map fun passage => (entry.1, passage)) = some (path, passage) := by
  induction entries with
  | nil => rfl
  | cons entry entries previous =>
    rw [List.forall_mem_cons] at idle
    by_cases same : entry.1 = path
    · rw [assign, if_pos same]
      rfl
    · rw [assign, if_neg same, List.findSome?_cons, idle.1 same]
      exact previous idle.2

/-- The report of an error that was found in the passage of the console, without colours. -/
theorem reportLines_of_lineIn [Host] {path : String} {passage : Passage}
    {before line after : List Char}
    {column : Nat} {message : String} (uncolored : console.colored = false)
    (current : console.current? = some (path, passage)) (located : error.source = passage.code)
    (external : error.internal = false) (diagnosed : error.isDiagnosed = true)
    (styled : error.styled false = .ok message)
    (lineIn : Text.LineIn error.source.toList before line after)
    (start : error.start = (before.length + column : Nat)) (inside : column ≤ line.length) :
    console.reportLines error = .ok
      [path ++ ":" ++ toString (passage.line + before.count '\n') ++ ": error: " ++ message,
        "  " ++ String.ofList line ++ "\n" ++ "  " ++ Error.spaces column ++ "^" ++ Error.tildes
          (min error.stop (before.length + line.length : Nat) - error.start - 1).toNat] := by
  have number : passage.lineOf error = passage.line + before.count '\n' := by
    rw [Passage.lineOf, if_pos located, ← located, start, lineIn.countBreaks_eq inside]
  have place : console.location error =
      path ++ ":" ++ toString (passage.line + before.count '\n') ++ ": " := by
    rw [location, current, uncolored, ← number]
    exact Style.emphasis.paint_uncolored _
  have diagnosis := Error.diagnosis_of_line lineIn start inside Style.error
  have marks : ": " ++ ("" ++ "error: ") = ": error: " := by decide
  have headline : (path ++ ":" ++ toString (passage.line + before.count '\n') ++ ": ") ++
      ("" ++ "error: ") ++ message =
        path ++ ":" ++ toString (passage.line + before.count '\n') ++ ": error: " ++ message := by
    rw [← marks]
    simp only [String.append_assoc]
  simp only [reportLines, announcement, uncolored, styled, external, diagnosed, diagnosis, place,
    Style.paint_uncolored]
  exact congrArg (fun first => Except.ok [first, _]) headline

/-- The report of a flaw of a chunk names and shows the line of the file. -/
theorem reportLines_of_foundAt [Host] {path line message : String} {lines : List String}
    {chunk : Chunk}
    {flaw : Flaw} {number column : Nat} (uncolored : console.colored = false)
    (current : console.current? = some (path, ⟨chunk.code, chunk.line⟩))
    (newlineFree : ∀ line ∈ lines, '\n' ∉ line.toList) (member : chunk ∈ Chunk.split lines)
    (found : Chunk.FoundAt lines chunk flaw.start number line column)
    (styled : (flaw.toError chunk.code).styled false = .ok message) :
    ∃ count, console.reportLines (flaw.toError chunk.code) = .ok
      [path ++ ":" ++ toString number ++ ": error: " ++ message,
        "  " ++ line ++ "\n" ++ "  " ++ Error.spaces column ++ "^" ++ Error.tildes count] := by
  have diagnosed : (flaw.toError chunk.code).isDiagnosed = true := by
    rw [Chunk.split_eq_ofGroups newlineFree] at member
    have kept := Chunk.not_blank_of_mem_ofGroups member
    have filled : chunk.code.isEmpty = false := by
      refine Bool.eq_false_iff.mpr fun empty => ?_
      rw [String.isEmpty_iff.mp empty] at kept
      exact absurd kept (by decide)
    simp [Error.isDiagnosed, Flaw.toError, filled]
  obtain ⟨front, group, back, above, below, rfl, rfl, lies, rfl⟩ := found
  have free : ∀ line ∈ group, '\n' ∉ line.toList :=
    fun line inside => newlineFree line (by simp [inside])
  have freeAbove : ∀ line ∈ above, '\n' ∉ line.toList :=
    fun line inside => free line (by simp [lies.split, inside])
  have report := reportLines_of_lineIn uncolored current rfl rfl diagnosed styled (lies.lineIn free)
    (congrArg Nat.cast lies.distance) (by rw [String.length_toList]; exact lies.inside)
  have number : ((front.length + 1 : Nat) : Int) + (Chunk.linesAbove above).count '\n' =
      (front.length + above.length + 1 : Nat) := by
    rw [Chunk.count_linesAbove freeAbove]
    omega
  rw [number, String.ofList_toList] at report
  exact ⟨_, report⟩

/-- What a settled error prints. -/
theorem printed_settle [Host] {lines : List String}
    (shown : console.reportLines error = .ok lines) :
    ((settle (.error error)).run console).2.printed = console.printed ++ textOf lines := by
  cases fatal : console.fatal with
  | true => rw [settle_of_fatal fatal rfl shown, printed_writeLines]
  | false =>
    rw [settle_of_mild fatal rfl shown]
    exact printed_writeLines console lines

end Console

/-! ### The location of an error -/

namespace Session

open Lisplet.Action

/-- The console after a fault that it has settled. -/
theorem console_guarded [Host] {session : Session} {action : SessionAction Unit} {fault : Fault}
    (failed : (action.run session).1 = .error fault) :
    ((guarded action).run session).2.console =
      ((Console.settle fault).run (action.run session).2.console).2 := by
  rw [guarded, run_tryCatch]
  rcases ran : action.run session with ⟨result, after⟩
  rw [ran] at failed
  subst failed
  dsimp only
  rw [run_onConsole]

/-- **Reported locations are true file locations.** Let a session on a file fail with a lexical or a
parse error, on a console without colours that is at no passage of another path. Then the report that
the console prints begins with the path and the number, counted from one, of the line of the file on which
the offending offset of the failing chunk lies. Below the message it shows that line as it is, and the
caret stands below the column of the offset, which is behind the last column if the input ended. -/
theorem load_reports_file_location [Host] (console : Console) (uncolored : console.colored = false)
    (path : String) (idle : ∀ entry ∈ console.passages, entry.1 ≠ path → entry.2 = none)
    (interactive : Bool) (limit : Limit) (traced : Bool) (content : Option (List Nat)) {error : Error}
    (failed : ((load content).run (start console path interactive limit traced)).1 =
      .error (.error error))
    (reading : error.IsOfReading) :
    ∃ text chunk flaw number line column message count,
      decodeFile path content = .ok text ∧
      (Chunk.readChunks limit.number (Chunk.split (Text.lines text))).2 = some (chunk, flaw) ∧
      error = flaw.toError chunk.code ∧
      Chunk.FoundAt (Text.lines text) chunk flaw.start number line column ∧
      (Text.lines text)[number - 1]? = some line ∧
      (error.kind = .unexpectedEnd → column = line.length) ∧
      error.message = .ok message ∧
      ((guarded (load content)).run (start console path interactive limit traced)).2.console.printed =
        console.printed ++ (path ++ ":" ++ toString number ++ ": error: " ++ message ++ "\n" ++
          "  " ++ line ++ "\n" ++ "  " ++ Error.spaces column ++ "^" ++ Error.tildes count ++ "\n") := by
  obtain ⟨text, chunk, flaw, queue, received, decoded, found, rfl, ended⟩ :=
    load_failed failed reading
  have newlineFree := Text.newlineFree_lines text
  obtain ⟨member, read⟩ := Chunk.mem_of_readChunks found
  obtain ⟨number, line, column, place⟩ :=
    Chunk.exists_foundAt newlineFree member (Reading.start_le read)
  obtain ⟨message, styled⟩ := Flaw.styled_toError (Reading.start_le read) false
  let reached := { start console path interactive limit traced with queue, received }.locatedAt
    (some ⟨chunk.code, chunk.line⟩)
  have current : reached.console.current? = some (path, ⟨chunk.code, chunk.line⟩) := by
    show (Console.assign path _ (Console.assign path none console.passages)).findSome? _ = _
    rw [Console.assign_assign]
    exact Console.current?_assign idle _
  obtain ⟨count, shown⟩ := Console.reportLines_of_foundAt (show reached.console.colored = false from
    uncolored) current newlineFree member place styled
  refine ⟨text, chunk, flaw, number, line, column, message, count, decoded, found, rfl, place,
    place.getElem?_eq, fun kind => place.column_of_end read ?_, ?_, ?_⟩
  · exact Decidable.byContradiction fun other =>
      (FlawCause.kind_ne_unexpectedEnd_iff flaw.cause).mpr other kind
  · rw [← flaw.styled_false chunk.code, styled]
  · rw [console_guarded failed, ended, Console.printed_settle shown]
    show console.printed ++ Console.textOf _ = _
    simp only [Console.textOf, List.map_cons, List.map_nil, String.join_cons, String.join_nil,
      String.append_empty, String.append_assoc]

/-- A malformed number on the last line of a form over two lines, behind a blank line. -/
theorem load_reports_file_location_malformed :
    let content := some ("1\n\n(f \"a\nb\" 2.5.1)\n3\n".toList.map Char.toNat)
    let fresh := start {} "f" false .standard false
    let chunk : Chunk := ⟨"(f \"a\nb\" 2.5.1)", 3⟩
    let flaw : Flaw := ⟨.malformedNumber "2.5.1", 9, 14⟩
    ((load content).run fresh).1 = .error (.error (flaw.toError chunk.code)) ∧
      ∃ number line column message count,
        Chunk.FoundAt ["1", "", "(f \"a", "b\" 2.5.1)", "3"] chunk flaw.start number line column ∧
        ((guarded (load content)).run fresh).2.console.printed =
          "f:" ++ toString number ++ ": error: " ++ message ++ "\n" ++
            "  " ++ line ++ "\n" ++ "  " ++ Error.spaces column ++ "^" ++ Error.tildes count ++ "\n" := by
  intro content fresh chunk flaw
  have failed : ((load content).run fresh).1 = .error (.error (flaw.toError chunk.code)) := by
    decide +kernel
  obtain ⟨text, failing, found, number, line, column, message, count, decoded, first, _, place, _, _, _,
    printed⟩ := load_reports_file_location {} rfl "f" (by simp) false .standard false content failed
      (flaw.isOfReading_toError chunk.code)
  have same : decodeFile "f" content = .ok "1\n\n(f \"a\nb\" 2.5.1)\n3\n" := by decide +kernel
  obtain rfl := Except.ok.inj (same.symm.trans decoded)
  have stopped : (Chunk.readChunks 100 (Chunk.split (Text.lines "1\n\n(f \"a\nb\" 2.5.1)\n3\n"))).2 =
      some (chunk, flaw) := by decide +kernel
  obtain ⟨rfl, rfl⟩ := Prod.mk.inj (Option.some.inj (stopped.symm.trans first))
  exact ⟨failed, number, line, column, message, count, place, printed⟩

end Session

end Lisplet
