import Lisplet.Proofs.FileRuns
import Lisplet.Proofs.ShellStates

/-!
What is left of a line that fails.

The forms in front of one that fails have been evaluated: what they have changed stays, and their
values are printed. The forms behind it are left in the queue of the session. The next code that is run
drops the queue before it is read, so they are never evaluated: whatever is in the queue, all later
lines are answered in the same way.

* `Interpretation.Sayable`: the values of forms and the error of one that failed can be printed.
* `Session.IsReportOf`: the text is one report of a fault below a limit.
* `Session.Standing.run_flawed`, `Session.Standing.run_flawless`: what a chunk prints and leaves.
* `Shell.after_withQueue`: the queue between two lines has no bearing on the later lines.
* `Shell.keeps_only_forms_before_failure`: what a line that completes code prints and leaves.
-/

namespace Lisplet

/-! ### Forms behind one that fails -/

/-- The interpreter does not come to the forms behind one that fails. -/
theorem interpret_of_failure [Host] {settings : Settings} {store : Store} {forms : List Expr}
    (failed : (interpret settings store forms).failure ≠ none) (others : List Expr) :
    let plain := interpret settings store forms
    interpret settings store (forms.take (plain.values.length + 1) ++ others) = plain := by
  induction forms generalizing store with
  | nil => exact absurd rfl failed
  | cons form forms previous =>
    simp only [interpret] at failed ⊢
    rcases ended : (form.eval settings 0 Session.rootScope).run { store } with
      ⟨fault | value, world⟩
    · simp [interpret, ended]
    · rw [ended] at failed
      have rest := previous failed
      simp only [List.length_cons, List.take_succ_cons, List.cons_append, interpret, ended, rest]

/-! ### Faults below any limit -/

/-- A limit leaves a fault as it is, or it is the fault that nothing can be compared with it. -/
theorem Limit.amend_eq (limit : Limit) (fault : Fault) :
    limit.amend fault = fault ∨ limit.amend fault = .breakdown .voidLimit := by
  cases limit with
  | levels number => exact .inl rfl
  | void =>
    cases fault with
    | error error =>
      simp only [amend]
      split_ifs
      · exact .inr rfl
      · exact .inl rfl
    | interrupt => exact .inl rfl
    | exhausted => exact .inl rfl
    | exit code => exact .inl rfl
    | breakdown breakdown => exact .inl rfl

/-- A fault of evaluation can be told below any limit if it can be told at all. -/
theorem Limit.told_amend [Host] (limit : Limit) {tracing : Tracing} {fault : Fault}
    (ordinary : fault.Ordinary tracing)
    (sayable : ∀ error, fault = .error error → ∃ message, error.message = .ok message) :
    ∃ error message, (limit.amend fault).told? = some error ∧ error.Sound ∧
      error.message = .ok message := by
  obtain same | void := limit.amend_eq fault
  · rw [same]
    cases ordinary with
    | unprintable stuck => exact stuck.isSayable.told
    | exhausted => exact ⟨_, _, rfl, Error.sound_of_filled rfl, rfl⟩
    | error sound =>
      obtain ⟨message, said⟩ := sayable _ rfl
      exact ⟨_, message, rfl, sound, said⟩
  · rw [void]
    exact Fault.IsSayable.told ⟨_, _, rfl, rfl⟩

/-- Everything that a shell has to print for forms that were interpreted can be printed. -/
structure Interpretation.Sayable (plain : Interpretation) (texts : List String) : Prop where
  values : Expr.printAll plain.values = .ok texts
  error : ∀ error, plain.failure = some (.error error) → ∃ message, error.message = .ok message

namespace Session

open Lisplet.Action

variable {session : Session} {limit : Limit} {traced colored : Bool} {place : Option Passage}

/-- The text is one report of a fault that came up below a limit, at a passage of a shell. -/
def IsReportOf [Host] (limit : Limit) (colored : Bool) (passage : Passage) (fault : Fault)
    (text : String) : Prop :=
  ∃ error, (limit.amend fault).told? = some error ∧
    Console.IsReport colored interactivePath passage error text

/-- A fault is settled by one report, and nothing but the place of the session changes. -/
theorem Standing.run_settle [Host] {passage : Passage}
    (standing : session.Standing limit traced colored (some passage)) {tracing : Tracing}
    {fault : Fault} (ordinary : fault.Ordinary tracing)
    (sayable : ∀ error, fault = .error error → ∃ message, error.message = .ok message) :
    ∃ lines, IsReportOf limit colored passage fault (Console.textOf lines) ∧
      ((onConsole (Console.settle (limit.amend fault))).run session).2 =
        (session.telling lines).placed none := by
  obtain ⟨error, message, told, sound, said⟩ := limit.told_amend ordinary sayable
  obtain ⟨styled, shown⟩ := (sound.styled_ok_iff session.console.colored).mpr ⟨message, said⟩
  obtain ⟨lines, reported, ended⟩ :=
    run_settle_of_told session standing.mild standing.here told sound shown
  have isReport := Console.isReport_of_reportLines standing.here reported
  rw [standing.path, standing.colored] at isReport
  exact ⟨lines, ⟨error, told, isReport⟩, by rw [ended]⟩

/-- Of a chunk with a flaw one report is printed, and the store stays as it is. -/
theorem Standing.run_flawed [Host] (standing : session.Standing limit traced colored place)
    {code : String} (line : Nat) {flaw : Flaw}
    (found : (Reading.ofText limit.number code).flaw = some flaw) :
    let ended := ((Session.guarded (Shell.runChunk code line)).run session).2
    ended.store = session.store ∧ ∃ report,
      ended.console.printed = session.console.printed ++ report ∧
        IsReportOf limit colored ⟨code, line⟩ (.error (flaw.toError code)) report := by
  have inside := Reading.start_le found
  have sound := Error.sound_toError inside
  have sayable := (sound.styled_ok_iff false).mp (Flaw.styled_toError inside false)
  have ordinary : (Fault.error (flaw.toError code)).Ordinary .off := .error sound
  obtain ⟨lines, isReport, settled⟩ := (standing.stopped ⟨code, line⟩).run_settle ordinary
    fun error same => by
      cases same
      exact sayable
  rw [← standing.limit] at found
  have amended : session.limit.amend (.error (flaw.toError code)) =
      limit.amend (.error (flaw.toError code)) := by rw [standing.limit]
  rw [run_guarded, run_runChunk_of_flaw ⟨place, standing.here⟩ line found, amended]
  dsimp only
  rw [settled]
  exact ⟨rfl, _, Console.printed_writeLines session.console lines, isReport⟩

/-- The forms that a chunk has left in the queue are those behind the one that failed. -/
theorem forms_answered [Host] (standing : session.Standing limit traced colored place)
    (code : String)
    (line : Nat) (plain : Interpretation) (lines : List String) (results : Array Expr) :
    (session.answered code line plain lines results).queue.map Queued.form =
      (Reading.ofText limit.number code).forms.drop (plain.values.length + 1) := by
  have dropped : (session.answered code line plain lines results).queue =
      (session.entered code line).queue.drop (plain.values.length + 1) := rfl
  rw [dropped, List.map_drop, forms_entered, standing.limit]

/-- A chunk without a flaw leaves the store that the interpreter leaves, and in the queue the forms
behind the one that failed. What is printed are the values, and one report if a form failed. -/
theorem Standing.run_flawless [Host] (standing : session.Standing limit false colored place)
    {code : String} (line : Nat) (flawless : (Reading.ofText limit.number code).flaw = none) :
    let forms := (Reading.ofText limit.number code).forms
    let plain := interpret { limit := limit.number } session.store forms
    let ended := ((Session.guarded (Shell.runChunk code line)).run session).2
    ∀ texts, plain.Sayable texts → ended.store = plain.store ∧
      ended.queue.map Queued.form = forms.drop (plain.values.length + 1) ∧ ∃ report,
        ended.console.printed = session.console.printed ++ Console.textOf texts ++ report ∧
          (plain.failure = none ∧ report = "" ∨ ∃ fault, plain.failure = some fault ∧
            IsReportOf limit colored ⟨code, line⟩ fault report) := by
  intro forms plain ended texts sayable
  have ran := run_runChunk ⟨place, standing.here⟩ line (standing.limit.symm ▸ flawless)
  have settings : session.settings = { limit := limit.number } := by
    simp [Session.settings, standing.limit, standing.traced]
  rw [standing.limit, settings] at ran
  obtain ⟨lines, shown, shows, _⟩ := ran
  obtain rfl : lines = [] := by
    rw [Program.steps_interpret] at shown
    cases shown
    rfl
  have left := forms_answered standing code line plain texts #[]
  have printed := printed_answered session code line plain texts #[]
  simp only [ended]
  rw [run_guarded, shows texts sayable.values, List.map_nil, List.nil_append]
  cases failed : plain.failure with
  | none =>
    have success : plain.outcome limit = .ok () := by rw [Interpretation.outcome, failed]
    rw [success]
    refine ⟨rfl, left, "", ?_, .inl ⟨rfl, rfl⟩⟩
    rw [String.append_empty]
    exact printed
  | some fault =>
    have failure : plain.outcome limit = .error (limit.amend fault) := by
      rw [Interpretation.outcome, failed]
    -- The session stands at the chunk, so the report is one of its passage.
    have fewer : plain.values.length < (Reading.ofText session.limit.number code).forms.length := by
      rw [standing.limit]
      exact (length_interpret _ session.store _).2 fault failed
    have stands : (session.answered code line plain texts #[]).Standing limit false colored
        (some ⟨code, line⟩) :=
      ⟨standing.mild, passages_answered session line fewer texts #[], rfl, standing.path,
        standing.limit, standing.traced, standing.colored⟩
    have ordinary := (interpret_orderly { limit := limit.number } session.store _).2 fault failed
    obtain ⟨lines, isReport, settled⟩ := stands.run_settle ordinary fun error same =>
      sayable.error error (by rw [failed, same])
    rw [failure]
    dsimp only
    rw [settled]
    refine ⟨rfl, left, _, ?_, .inr ⟨fault, rfl, isReport⟩⟩
    rw [← printed]
    exact Console.printed_writeLines _ lines

end Session

/-! ### The queue between two lines -/

namespace Shell

open Lisplet.Action

variable {shell : Shell} {line : String}

/-- The same shell with other forms left in the queue of its session. -/
def withQueue (shell : Shell) (queue : List Queued) : Shell :=
  { shell with session := { shell.session with queue } }

theorem pending_withQueue (shell : Shell) (queue : List Queued) :
    (shell.withQueue queue).pending = shell.pending := rfl

theorem sourceOf?_withQueue (shell : Shell) (queue : List Queued) (line : String) :
    (shell.withQueue queue).sourceOf? line = shell.sourceOf? line := by
  rw [sourceOf?, sourceOf?, pending_withQueue]

theorem joined_withQueue (shell : Shell) (queue : List Queued) (line : String) :
    (shell.withQueue queue).joined line = shell.joined line := by
  rw [joined, joined, pending_withQueue]

theorem countLine_withQueue (shell : Shell) (queue : List Queued) :
    (shell.withQueue queue).countLine = shell.countLine.withQueue queue := rfl

/-- The answers to some lines. -/
def replies [Host] (shell : Shell) : List String → List (Except Fault Reply)
  | [] => []
  | line :: lines => ((respond line).run shell).1 :: replies ((respond line).run shell).2 lines

/-- A chunk is run without what an earlier one has left in the queue. -/
theorem run_guarded_queue [Host] (code : String) (line : Nat) (session : Session)
    (queue : List Queued) :
    (Session.guarded (runChunk code line)).run { session with queue } =
      (Session.guarded (runChunk code line)).run session := by
  have same : (runChunk code line).run { session with queue } =
      (runChunk code line).run session := by
    simp only [runChunk, run_bind, run_modify]
  rw [Session.run_guarded, Session.run_guarded, same]

/-- An answer does not depend on the queue. -/
theorem Answers.withQueue [Host] {answer : Except Fault Reply × Shell}
    (answers : Answers shell line answer) (queue : List Queued) :
    ∃ left, Answers (shell.withQueue queue) line (answer.1, answer.2.withQueue left) := by
  have source := sourceOf?_withQueue shell queue line
  have code := joined_withQueue shell queue line
  cases answers with
  | idle blank other => exact ⟨queue, .idle blank (source.trans other)⟩
  | request asked other => exact ⟨queue, .request asked (source.trans other)⟩
  | kept taken incomplete =>
    have answers := Answers.kept (source.trans taken) (code.symm ▸ incomplete)
    rw [code] at answers
    exact ⟨queue, answers⟩
  | @ran taken complete result session ended =>
    have ran : (Session.guarded (runChunk ((shell.withQueue queue).joined line)
        (shell.withQueue queue).countLine.firstLine)).run (shell.withQueue queue).session =
          (result, session) := by
      rw [code, countLine_withQueue]
      exact (run_guarded_queue _ _ shell.session queue).trans ended
    exact ⟨session.queue, .ran (source.trans taken) (code.symm ▸ complete) ran⟩

/-- By induction on the lines: neither the answers to them nor the shell after them, its queue apart,
depend on the queue in front of them. -/
theorem after_withQueue [Host] (shell : Shell) (queue : List Queued) (lines : List String) :
    (shell.withQueue queue).replies lines = shell.replies lines ∧
      ∃ left, (shell.withQueue queue).after lines = (shell.after lines).withQueue left := by
  induction lines generalizing shell queue with
  | nil => exact ⟨rfl, queue, rfl⟩
  | cons line lines previous =>
    obtain ⟨left, answers⟩ := (answers_respond shell line).withQueue queue
    obtain ⟨same, last, reached⟩ := previous ((respond line).run shell).2 left
    rw [replies, replies, after, after, answers.run_eq]
    dsimp only
    rw [same]
    exact ⟨rfl, last, reached⟩

/-- **A line that fails keeps what came before it and nothing behind it.** After any lines that let no
fault out, a line completes code, and steps are not shown. If the code cannot be read, one report is
printed and the store stays as it is. Otherwise the forms are evaluated in order up to the first one
that fails. If everything can be printed, the store is the one which that leaves, and what is printed
are the values, one on a line, and then one report if a form failed. The forms behind that one have no
part in this, whatever they are. They are left in the queue, and neither they nor any other forms there
have a part in any later lines. -/
theorem keeps_only_forms_before_failure [Host] (colored : Bool) (options : CommandLine.Options)
    (untraced : options.trace = false) (earlier : List String) {answers : List Reply}
    {shell : Shell}
    (reached : (earlier.mapM respond).run (Program.startShell colored options) =
      (.ok answers, shell))
    (line : String) {code : String} {first : Nat}
    (completed : shell.completed? line = some (code, first)) :
    let limit := Program.limit options
    let reading := Reading.ofText limit.number code
    let next := ((respond line).run shell).2
    let before := shell.session.console.printed
    let printed := next.session.console.printed
    (∀ flaw, reading.flaw = some flaw → next.session.store = shell.session.store ∧
        ∃ report, printed = before ++ report ∧
          Session.IsReportOf limit colored ⟨code, first⟩ (.error (flaw.toError code)) report) ∧
      (reading.flaw = none →
        let settings : Settings := { limit := limit.number }
        let plain := interpret settings shell.session.store reading.forms
        (∀ texts, plain.Sayable texts → next.session.store = plain.store ∧
          next.session.queue.map Queued.form = reading.forms.drop (plain.values.length + 1) ∧
          ∃ report, printed = before ++ Console.textOf texts ++ report ∧
            (plain.failure = none ∧ report = "" ∨ ∃ fault, plain.failure = some fault ∧
              Session.IsReportOf limit colored ⟨code, first⟩ fault report)) ∧
        (plain.failure ≠ none → ∀ others, interpret settings shell.session.store
          (reading.forms.take (plain.values.length + 1) ++ others) = plain)) ∧
      ∀ queue later, (next.withQueue queue).replies later = next.replies later ∧
        ∃ left, (next.withQueue queue).after later = (next.after later).withQueue left := by
  intro limit reading next before printed
  obtain ⟨_, standing⟩ := standing_of_answered (standing_startShell colored options) reached
  rw [untraced] at standing
  have ended : next.session = ((Session.guarded (runChunk code first)).run shell.session).2 := by
    simp only [next, run_respond_of_completed completed]
  simp only [printed, ended]
  exact ⟨fun flaw found => standing.run_flawed first found,
    fun flawless => ⟨standing.run_flawless first flawless, interpret_of_failure⟩,
    fun queue later => after_withQueue next queue later⟩

/-- The first form begins on an earlier line and has a value; the second one has an unknown name; the
definition behind it is never made. -/
theorem keeps_only_forms_before_failure_definition :
    let line := "2) (f) (def \"x\" 1)"
    let code := "(list\n2) (f) (def \"x\" 1)"
    let error : Error := { kind := .notFound, args := [.text "f"] }
    ∃ answers shell, (["1", "(list"].mapM respond).run (Program.startShell false {}) =
        (.ok answers, shell) ∧
      shell.completed? line = some (code, 2) ∧
      let next := ((respond line).run shell).2
      next.session.queue.map Queued.form =
          [.list [.identifier "def", .string "x", .integer 1]] ∧
      (∃ report, next.session.console.printed =
          shell.session.console.printed ++ Console.textOf ["(2)"] ++ report ∧
        Session.IsReportOf .standard false ⟨code, 2⟩ (.error error) report) ∧
      ∀ queue later, (next.withQueue queue).replies later = next.replies later := by
  intro line code error
  let interpreted (shell : Shell) := interpret { limit := Limit.standard.number }
    shell.session.store (Reading.ofText Limit.standard.number code).forms
  have flawless : (Reading.ofText Limit.standard.number code).flaw = none := by decide +kernel
  have behind : (Reading.ofText Limit.standard.number code).forms.drop 2 =
      [.list [.identifier "def", .string "x", .integer 1]] := by
    decide +kernel
  have computed : let answer := (["1", "(list"].mapM respond).run (Program.startShell false {})
      answer.1 = .ok [.handled, .handled] ∧ answer.2.completed? line = some (code, 2) ∧
        (interpreted answer.2).values = [.list [.integer 2]] ∧
        (interpreted answer.2).failure = some (.error error) := by
    decide +kernel
  rcases reached : (["1", "(list"].mapM respond).run (Program.startShell false {}) with
    ⟨result, shell⟩
  rw [reached] at computed
  obtain ⟨rfl, completed, values, failed⟩ := computed
  refine ⟨_, shell, rfl, completed, ?_⟩
  have sayable : (interpreted shell).Sayable ["(2)"] := by
    refine ⟨by rw [values]; rfl, fun other same => ?_⟩
    cases failed.symm.trans same
    exact ⟨_, rfl⟩
  obtain ⟨_, shows, later⟩ := keeps_only_forms_before_failure false {} rfl ["1", "(list"]
    reached line completed
  obtain ⟨_, left, report, printed, ⟨unfailing, _⟩ | ⟨_, same, isReport⟩⟩ :=
    (shows flawless).1 ["(2)"] sayable
  · cases failed.symm.trans unfailing
  · cases failed.symm.trans same
    have dropped : (Reading.ofText Limit.standard.number code).forms.drop
        ((interpreted shell).values.length + 1) =
          [.list [.identifier "def", .string "x", .integer 1]] := by
      rw [values]
      exact behind
    exact ⟨left.trans dropped, ⟨report, printed, isReport⟩, fun queue lines => (later queue lines).1⟩

end Shell

end Lisplet
