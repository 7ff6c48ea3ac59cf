import Lisplet.Proofs.Ledger
import Lisplet.Proofs.ShellStates

/-!
Cutting lines into chunks, at once and one by one.

The lines of a file are cut into chunks before any of them is read. A shell cuts as the lines come,
and gives each chunk to its session to read and run before it sees the next line. A session keeps a
record of what it was given to read, and of a shell's session that record is the chunks of a file with
the source text that the shell takes in, each with the number of its first line; what is pending at the
end is the last one. What comes of the chunks has no part in it.

* `Session.GivesNothing`: the operations that give a session nothing to read.
* `Session.received_runChunk`: running a chunk gives the session that chunk.
* `Shell.unfinished`: what is pending, as a chunk.
* `Shell.received_after`: the session of a shell is given what it takes in, cut as a file is.
* `Shell.cuts_as_file`: without requests in between, what it takes in are the lines themselves.
-/

namespace Lisplet

/-! ### Lines without blanks around them -/

namespace Text

/-- The last character that is left of a text is not blank. -/
theorem getLast?_strip (text : String) :
    ∀ char ∈ (strip text).toList.getLast?, isBlank char = false := by
  intro char last
  rw [strip, String.toList_ofList, trimList, List.getLast?_reverse] at last
  simpa using halts_dropWhile isBlank _ char last

/-- A text without blanks around it does not end with a line break. -/
theorem dropFinalBreaks_strip (text : String) : dropFinalBreaks (strip text) = strip text := by
  have kept : (strip text).toList.reverse.dropWhile (· == '\n') = (strip text).toList.reverse := by
    have last := getLast?_strip text
    rw [← List.head?_reverse] at last
    cases chars : (strip text).toList.reverse with
    | nil => rfl
    | cons first rest =>
      rw [chars] at last
      have blank := last first rfl
      refine List.dropWhile_cons_of_neg ?_
      rintro newline
      rw [beq_iff_eq.mp newline] at blank
      cases blank
  rw [dropFinalBreaks, kept, List.reverse_reverse, String.ofList_toList]

/-- A text that is not blank is not blank without the blanks around it either. -/
theorem strip_strip_isEmpty {text : String} (some : strip text ≠ "") :
    (strip (strip text)).isEmpty = false := by
  rw [Bool.eq_false_iff, ne_eq, strip_isEmpty_iff]
  intro blank
  cases last : (strip text).toList.getLast? with
  | none => exact some (String.toList_eq_nil_iff.mp (List.getLast?_eq_none_iff.mp last))
  | some char =>
    have notBlank := getLast?_strip text char last
    rw [blank char (List.mem_of_getLast? last)] at notBlank
    cases notBlank

end Text

/-- The number of a pending chunk does not matter if nothing is pending. -/
theorem Chunk.splitFrom_of_empty (number first : Nat) (lines : List String) :
    splitFrom number ⟨"", first⟩ lines = splitFrom number ⟨"", 0⟩ lines := by
  cases lines <;> rfl

/-! ### What a session is given to read -/

namespace Session

open Lisplet.Action

/-- The operation gives the session nothing to read, however it ends. -/
def GivesNothing {α : Type} (action : SessionAction α) : Prop :=
  ∀ session : Session, (action.run session).2.received = session.received

section GivesNothing

variable {α β : Type}

theorem GivesNothing.bind {action : SessionAction α} {next : α → SessionAction β}
    (first : GivesNothing action) (second : ∀ value, GivesNothing (next value)) :
    GivesNothing (action >>= next) := by
  intro session
  have before := first session
  rw [run_bind]
  generalize action.run session = ended at before ⊢
  rcases ended with ⟨fault | value, middle⟩
  · exact before
  · exact (second value middle).trans before

theorem givesNothing_onConsole (action : Reporting α) : GivesNothing (onConsole action) := by
  intro session
  rw [run_onConsole]

/-- Whatever the second operation does about a failure of the first one. -/
theorem GivesNothing.ensuring {action after : SessionAction Unit} (first : GivesNothing action)
    (second : GivesNothing after) : GivesNothing (ensuring action after) := by
  intro session
  have ends := (second (action.run session).2).trans (first session)
  rw [run_ensuring]
  generalize after.run (action.run session).2 = ended at ends ⊢
  rcases ended with ⟨fault | value, final⟩ <;> exact ends

theorem givesNothing_showResults : GivesNothing showResults := by
  intro session
  cases printed : Expr.printAll session.results.toList with
  | ok texts => rw [run_showResults printed]; rfl
  | error number =>
    obtain ⟨texts, stuck⟩ := run_showResults_stuck printed
    rw [stuck]
    rfl

variable [Host]

theorem givesNothing_evaluate (form : Expr) : GivesNothing (evaluate form) := by
  intro session
  rcases ended : (form.eval session.settings 0 rootScope).run { store := session.store } with
    ⟨result, world⟩
  obtain ⟨lines, _, ran⟩ := run_evaluate session ended
  rw [ran]
  rfl

theorem givesNothing_runAll (waiting : List Queued) : GivesNothing (runAll waiting) := by
  induction waiting with
  | nil => exact fun session => rfl
  | cons queued rest previous =>
    have one : GivesNothing (runOne queued) := by
      refine .bind (fun session => rfl) fun _ => .bind (givesNothing_evaluate queued.form) fun _ => ?_
      exact .bind (fun session => rfl) fun _ session => rfl
    exact .bind (fun session => rfl) fun _ => one.bind fun _ => previous

theorem givesNothing_runAndShow : GivesNothing runAndShow := by
  have ran : GivesNothing run := fun session => givesNothing_runAll session.queue session
  exact ran.ensuring givesNothing_showResults

end GivesNothing

/-- A session that is given a text has been given that text, whether it can be read or not. -/
theorem received_add (session : Session) (code : String) (line : Int) :
    ((add code line).run session).2.received = session.received.push ⟨code, line⟩ := by
  rw [run_add]
  cases (Reading.ofText session.limit.number code).flaw <;> rfl

/-- A chunk is the only thing that is given to the session that runs it, whatever comes of it. -/
theorem received_runChunk [Host] (session : Session) (code : String) (line : Nat) :
    ((guarded (Shell.runChunk code line)).run session).2.received =
      session.received.push ⟨code, line⟩ := by
  have ran : ((Shell.runChunk code line).run session).2.received =
      session.received.push ⟨code, line⟩ := by
    have given := received_add { session with queue := [], results := #[] } code line
    rw [Shell.runChunk, run_bind, run_modify]
    dsimp only
    rw [run_bind, run_discard]
    generalize (add code line).run { session with queue := [], results := #[] } = added at given ⊢
    rcases added with ⟨fault | forms, middle⟩
    · exact given
    · exact (givesNothing_runAndShow middle).trans given
  rw [guarded, run_tryCatch]
  generalize (Shell.runChunk code line).run session = ended at ran ⊢
  rcases ended with ⟨fault | value, final⟩
  · exact (givesNothing_onConsole (Console.settle fault) final).trans ran
  · exact ran

end Session

namespace Shell

variable {shell : Shell} {line : String}

/-! ### Chunks that come line by line -/

/-- What is pending, as a chunk. -/
def unfinished (shell : Shell) : List Chunk :=
  if shell.pending.isEmpty then [] else [⟨shell.pending, shell.firstLine⟩]

/-- Source text is not blank where nothing is pending. -/
theorem strip_ne_of_source {text : String} (source : shell.sourceOf? line = some text)
    (empty : shell.pending.isEmpty = true) : Text.strip line ≠ "" := by
  intro blank
  rw [sourceOf?, (parse_eq_nothing_iff line).mpr blank] at source
  simp [empty] at source

/-- Code that a line is joined to is not blank. -/
theorem strip_joined {texts : List String} (collects : shell.Collects texts) {text : String}
    (source : shell.sourceOf? line = some text) :
    (Text.strip (shell.joined line)).isEmpty = false := by
  rw [joined, Chunk.joinLine]
  split_ifs with empty
  · exact Text.strip_strip_isEmpty (strip_ne_of_source source empty)
  · have incomplete := collects.incomplete fun none => empty (String.isEmpty_iff.mpr none)
    have notBlank := strip_of_incomplete incomplete
    rw [Bool.eq_false_iff, ne_eq, Text.strip_isEmpty_iff] at notBlank ⊢
    exact fun blank => notBlank fun char member => blank char (by simp [member])

/-- Where a line leaves a form open, the cut goes on with the chunk. -/
theorem splitFrom_kept {line : String} (incomplete : isIncomplete (shell.joined line) = true)
    (rest : List String) :
    Chunk.splitFrom (shell.lineCount + 1) ⟨shell.pending, shell.firstLine⟩ (Text.strip line :: rest) =
      Chunk.splitFrom (shell.lineCount + 2) ⟨shell.joined line, shell.countLine.firstLine⟩ rest := by
  rw [Chunk.splitFrom, Text.dropFinalBreaks_strip, ← joined, if_pos incomplete]
  rfl

/-- Where a line completes code, the cut has a chunk and begins another one. -/
theorem splitFrom_ran {line : String} (complete : isIncomplete (shell.joined line) = false)
    (some : (Text.strip (shell.joined line)).isEmpty = false) (rest : List String) :
    Chunk.splitFrom (shell.lineCount + 1) ⟨shell.pending, shell.firstLine⟩ (Text.strip line :: rest) =
      ⟨shell.joined line, shell.countLine.firstLine⟩ ::
        Chunk.splitFrom (shell.lineCount + 2) ⟨"", shell.countLine.firstLine⟩ rest := by
  rw [Chunk.splitFrom, Text.dropFinalBreaks_strip, ← joined, complete, some,
    ← Chunk.splitFrom_of_empty _ shell.countLine.firstLine]
  rfl

/-- A shell gives its session the source text that it takes in, cut as a file is, requests in between
or not. -/
theorem received_after [Host] {texts : List String} (collects : shell.Collects texts)
    (lines : List String) :
    ∃ given, (shell.after lines).session.received.toList = shell.session.received.toList ++ given ∧
      given ++ Chunk.passages (shell.after lines).unfinished =
        Chunk.passages (Chunk.splitFrom (shell.lineCount + 1) ⟨shell.pending, shell.firstLine⟩
          (shell.taken lines)) := by
  induction lines generalizing shell texts with
  | nil => exact ⟨[], (List.append_nil _).symm, rfl⟩
  | cons line lines previous =>
    have next := previous (collects.respond line)
    rw [taken, after]
    have answers := answers_respond shell line
    generalize (respond line).run shell = answer at answers next ⊢
    cases answers with
    | idle _ other =>
      rw [other]
      exact next
    | request _ other =>
      rw [other]
      exact next
    | kept source incomplete =>
      obtain ⟨given, recorded, cut⟩ := next
      refine ⟨given, recorded, cut.trans ?_⟩
      rw [source, Option.isSome_some, if_pos rfl, splitFrom_kept incomplete]
      rfl
    | @ran source complete _ session ended =>
      obtain ⟨given, recorded, cut⟩ := next
      have chunk := Session.received_runChunk shell.session (shell.joined line)
        shell.countLine.firstLine
      rw [ended] at chunk
      refine ⟨⟨shell.joined line, shell.countLine.firstLine⟩ :: given, ?_, ?_⟩
      · rw [recorded]
        show session.received.toList ++ given = _
        rw [chunk, Array.toList_push, List.append_assoc, List.singleton_append]
      · rw [source, Option.isSome_some, if_pos rfl,
          splitFrom_ran complete (strip_joined collects source)]
        exact congrArg (_ :: ·) cut

/-! ### Lines without requests -/

/-- Whether a line is a request for help or for the end of the conversation. -/
def isRequest (line : String) : Bool :=
  (parse line).remark?.isSome

/-- The lines without the blanks around them, those left out that are empty and come while nothing is
pending. -/
def nonemptyLines [Host] (shell : Shell) : List String → List String
  | [] => []
  | line :: lines =>
    let rest := nonemptyLines ((respond line).run shell).2 lines
    if (Text.strip line).isEmpty ∧ shell.pending.isEmpty then rest else Text.strip line :: rest

/-- A line that is no request is source text unless it is blank and nothing is pending. -/
theorem sourceOf?_eq_none_iff (shell : Shell) (plain : isRequest line = false) :
    shell.sourceOf? line = none ↔
      (Text.strip line).isEmpty = true ∧ shell.pending.isEmpty = true := by
  rw [String.isEmpty_iff, ← parse_eq_nothing_iff, sourceOf?]
  cases asked : parse line with
  | nothing => simp
  | source text => simp
  | help => simp [asked, isRequest, Command.remark?] at plain
  | quit => simp [asked, isRequest, Command.remark?] at plain
  | endOfInput => simp [asked, isRequest, Command.remark?] at plain

/-- Without requests, all lines are taken in but those that are left out. -/
theorem taken_eq_nonemptyLines [Host] (shell : Shell) {lines : List String}
    (plain : ∀ line ∈ lines, isRequest line = false) :
    shell.taken lines = shell.nonemptyLines lines := by
  induction lines generalizing shell with
  | nil => rfl
  | cons line lines previous =>
    have rest := previous ((respond line).run shell).2 fun other member =>
      plain other (List.mem_cons_of_mem line member)
    have blank := sourceOf?_eq_none_iff shell (plain line List.mem_cons_self)
    rw [taken, nonemptyLines, rest]
    simp only [← blank, Option.isSome_iff_ne_none, ite_not, ne_eq]

/-- **A shell cuts lines into the chunks of a file.** No line is a request. What the session of a shell
is given to read along the lines, in order and each text with the number of its first line, followed by
what is pending at the end, are the chunks of a file with the same lines, without the blanks around
them and without those that are empty and come while nothing is pending. What comes of the chunks,
whether they can be read or not and whether they fail or not, does not change how the lines behind them
are cut. -/
theorem cuts_as_file [Host] (session : Session) (lines : List String)
    (plain : ∀ line ∈ lines, isRequest line = false) :
    let shell : Shell := { session }
    let final := shell.after lines
    ∃ given, final.session.received.toList = session.received.toList ++ given ∧
      given ++ Chunk.passages final.unfinished =
        Chunk.passages (Chunk.split (shell.nonemptyLines lines)) := by
  intro shell final
  rw [← taken_eq_nonemptyLines shell plain]
  exact received_after (collects_nil session) lines

/-- A stray parenthesis and an unknown name come between the lines; the blank line behind the first form
has no number, and the one inside of the third form has. -/
theorem cuts_as_file_with_failures :
    let session := (Program.startShell false {}).session
    let shell : Shell := { session }
    let lines := ["  (list 1", " 2)", "   ", ")", "(f", "", ")  ", "\"open"]
    let final := shell.after lines
    (∀ line ∈ lines, isRequest line = false) ∧
      final.session.received.toList = [⟨"(list 1\n2)", 1⟩, ⟨")", 3⟩, ⟨"(f\n\n)", 4⟩] ∧
      Chunk.passages final.unfinished = [⟨"\"open", 7⟩] ∧
      Chunk.passages (Chunk.split (shell.nonemptyLines lines)) =
        [⟨"(list 1\n2)", 1⟩, ⟨")", 3⟩, ⟨"(f\n\n)", 4⟩, ⟨"\"open", 7⟩] := by
  intro session shell lines final
  have plain : ∀ line ∈ lines, isRequest line = false := by decide +kernel
  have received : final.session.received.toList =
      [⟨"(list 1\n2)", 1⟩, ⟨")", 3⟩, ⟨"(f\n\n)", 4⟩] := by
    decide +kernel
  have unfinished : Chunk.passages final.unfinished = [⟨"\"open", 7⟩] := by decide +kernel
  obtain ⟨given, recorded, cut⟩ := cuts_as_file session lines plain
  have fresh : session.received.toList = [] := rfl
  rw [fresh, List.nil_append, received] at recorded
  rw [← recorded, unfinished] at cut
  exact ⟨plain, received, unfinished, cut.symm⟩

end Shell

end Lisplet
