import Lisplet.Program
import Lisplet.Proofs.Running
import Lisplet.Proofs.SingleForms

/-!
Running a file.

A file is read chunk by chunk before anything is evaluated. So a run of a file shows what a plain
interpreter shows that is given all forms of the file at once.

* `Chunk.readsAlike_split`: the chunks of lines are read like the lines as a whole.
* `Chunk.eq_nil_of_no_forms`: a file without a flaw and without forms has no chunks.
* `Session.run_addChunks`, `Session.run_addChunks_of_flaw`: reading chunks into the queue.
* `Session.run_load`: what loading a file does.
* `Program.runFile_of_flaw`, `Program.runFile_of_flawless`, `Program.runFile_of_failure`: the cases.
* `Program.run_file_as_interpreted`: what a run of a file prints, and how it ends.
-/

namespace Lisplet

/-! ### The lines of a text -/

theorem Text.newlineFree_linesFrom {line chars : List Char} (free : '\n' ∉ line) :
    ∀ text ∈ linesFrom line chars, '\n' ∉ text.toList := by
  fun_induction linesFrom line chars with
  | case1 line empty => simp
  | case2 line nonempty => simpa using free
  | case3 line rest previous =>
    intro text member
    obtain rfl | later := List.mem_cons.mp member
    · simpa using free
    · exact previous (by simp) text later
  | case4 line char rest notBreak previous =>
    refine previous fun inside => ?_
    obtain same | inside := List.mem_cons.mp inside
    · exact notBreak same.symm
    · exact free inside

/-- No line of a text has a break in it. -/
theorem Text.newlineFree_lines (text : String) : ∀ line ∈ lines text, '\n' ∉ line.toList :=
  newlineFree_linesFrom (by simp)

/-! ### Chunks without forms -/

theorem isBlank_of_isSpacing {char : Char} (spacing : isSpacing char = true) :
    Text.isBlank char = true := by
  simp only [isSpacing, Bool.or_eq_true, decide_eq_true_eq] at spacing
  obtain (rfl | rfl) | rfl := spacing <;> decide

theorem Scans.spacing_of_no_tokens {cursor : Cursor} {scan : Scan} (scans : Scans cursor scan)
    (flawless : scan.flaw = none) (none : scan.tokens = []) :
    ∀ char ∈ cursor.rest, isSpacing char = true := by
  cases scans with
  | ended blank => exact blank
  | flawed => cases flawless
  | token => cases none

/-- A text without a flaw and without forms is blank. -/
theorem Reading.blank_of_no_forms {limit : Int} {code : String}
    (flawless : (Reading.ofText limit code).flaw = none)
    (none : (Reading.ofText limit code).forms = []) : (Text.strip code).isEmpty = true := by
  obtain ⟨whole, items, fed⟩ := Cursor.flaw_readAll_eq_none flawless
  rw [Reading.ofText, Cursor.forms_readAll, fed] at none
  have empty : items = [] := by simpa [Nest.forms] using none
  subst empty
  have tokens := Nest.eq_nil_of_feedAll_eq_empty fed
  have spacing := (scans_scan (Cursor.ofText code)).spacing_of_no_tokens whole tokens
  rw [Text.strip_isEmpty_iff]
  exact fun char member => isBlank_of_isSpacing (spacing char member)

namespace Chunk

variable {limit : Int}

/-- No chunk is blank. -/
theorem not_blank_of_mem_ofGroups {number : Nat} {groups : List (List String)} {chunk : Chunk}
    (member : chunk ∈ ofGroups number groups) : (Text.strip chunk.code).isEmpty = false := by
  induction groups generalizing number with
  | nil => cases member
  | cons group groups previous =>
    rw [ofGroups] at member
    split at member
    · exact previous member
    · rename_i kept
      obtain rfl | later := List.mem_cons.mp member
      · exact Bool.eq_false_iff.mpr kept
      · exact previous later

theorem split_eq_ofGroups {lines : List String} (newlineFree : ∀ line ∈ lines, '\n' ∉ line.toList) :
    split lines = ofGroups 1 (groupsFrom [] lines) :=
  splitFrom_eq_ofGroups pending_nil newlineFree 0 1 fun impossible => absurd rfl impossible

/-- The chunks of lines are read like the lines as a whole, with the dropped ones emptied. -/
theorem readsAlike_split (limit : Int) {lines : List String}
    (newlineFree : ∀ line ∈ lines, '\n' ∉ line.toList) :
    ReadsAlike limit 1 (split lines) (wholeText lines) := by
  have text : wholeText lines = joinLines ((groupsFrom [] lines).map shownLines).flatten :=
    congrArg joinLines (append_emptyDropped pending_nil lines)
  rw [split_eq_ofGroups newlineFree, text]
  refine readsAlike_ofGroups limit 1 (fun group => grown_of_mem_groupsFrom pending_nil) ?_
    fun group => complete_of_mem_dropLast
  intro group member line inside
  refine newlineFree line ?_
  rw [← List.nil_append lines, ← flatten_groupsFrom [] lines]
  exact List.mem_flatten.mpr ⟨group, member, inside⟩

/-- Chunks that are not blank and have no flaw have forms, if there are chunks at all. -/
theorem eq_nil_of_no_forms {chunks : List Chunk}
    (kept : ∀ chunk ∈ chunks, (Text.strip chunk.code).isEmpty = false)
    (flawless : (readChunks limit chunks).2 = none) (none : (readChunks limit chunks).1 = []) :
    chunks = [] := by
  cases chunks with
  | nil => rfl
  | cons chunk chunks =>
    cases read : (Reading.ofText limit chunk.code).flaw with
    | some flaw => simp [readChunks, read] at flawless
    | none =>
      simp only [readChunks, read, List.append_eq_nil_iff] at none
      have blank := Reading.blank_of_no_forms read none.1
      rw [kept chunk List.mem_cons_self] at blank
      cases blank

theorem SameFlaw.eq_none {number : Nat} {text : String} {part : Option (Chunk × Flaw)}
    (same : SameFlaw number text part none) : part = none := by
  cases part with
  | none => rfl
  | some found => exact same.elim

theorem SameFlaw.exists_part {number : Nat} {text : String} {part : Option (Chunk × Flaw)}
    {flaw : Flaw} (same : SameFlaw number text part (some flaw)) :
    ∃ chunk found, part = some (chunk, found) := by
  cases part with
  | none => exact same.elim
  | some found => exact ⟨found.1, found.2, rfl⟩

/-- The queue of chunks: their forms in order, each with the passage of its chunk. -/
def queued (limit : Int) (chunks : List Chunk) : List Queued :=
  chunks.flatMap fun chunk =>
    (Reading.ofText limit chunk.code).forms.map (Queued.mk ⟨chunk.code, chunk.line⟩)

theorem forms_queued {chunks : List Chunk} (flawless : (readChunks limit chunks).2 = none) :
    (queued limit chunks).map Queued.form = (readChunks limit chunks).1 := by
  induction chunks with
  | nil => rfl
  | cons chunk chunks previous =>
    cases read : (Reading.ofText limit chunk.code).flaw with
    | some flaw => simp [readChunks, read] at flawless
    | none =>
      simp only [readChunks, read] at flawless ⊢
      rw [← previous flawless]
      simp [queued, Function.comp_def]

/-- A form of chunks without a flaw is queued with the passage of the chunk it was read from. -/
theorem exists_queued_at {chunks : List Chunk} {forms : List Expr} {position : Nat}
    (queuedForms : (queued limit chunks).map Queued.form = forms) (inside : position < forms.length) :
    ∃ chunk ∈ chunks, ∃ form ∈ (Reading.ofText limit chunk.code).forms,
      forms[position]? = some form ∧
        (queued limit chunks)[position]? = some ⟨⟨chunk.code, chunk.line⟩, form⟩ := by
  subst queuedForms
  rw [List.length_map] at inside
  have found := List.getElem?_eq_getElem inside
  obtain ⟨chunk, member, read⟩ := List.mem_flatMap.mp (List.mem_of_getElem? found)
  obtain ⟨form, given, entry⟩ := List.mem_map.mp read
  rw [← entry] at found
  exact ⟨chunk, member, form, given, by rw [List.getElem?_map, found]; rfl, found⟩

/-- The flaw of chunks is the one of a chunk among them. -/
theorem mem_of_readChunks {chunks : List Chunk} {chunk : Chunk} {flaw : Flaw}
    (found : (readChunks limit chunks).2 = some (chunk, flaw)) :
    chunk ∈ chunks ∧ (Reading.ofText limit chunk.code).flaw = some flaw := by
  induction chunks with
  | nil => cases found
  | cons first chunks previous =>
    cases read : (Reading.ofText limit first.code).flaw with
    | some other =>
      simp only [readChunks, read, Option.some.injEq, Prod.mk.injEq] at found
      obtain ⟨rfl, rfl⟩ := found
      exact ⟨List.mem_cons_self, read⟩
    | none =>
      simp only [readChunks, read] at found
      obtain ⟨member, same⟩ := previous found
      exact ⟨List.mem_cons_of_mem _ member, same⟩

end Chunk

/-! ### Loading -/

namespace Session

open Lisplet.Action

variable {session : Session}

theorem run_addChunks_cons (chunk : Chunk) (chunks : List Chunk) :
    (addChunks (chunk :: chunks)).run session =
      match (add chunk.code chunk.line).run session with
      | (.ok _, after) => (addChunks chunks).run after
      | (.error fault, after) => (.error fault, after) := by
  rw [addChunks, run_bind, run_discard]
  rcases (add chunk.code chunk.line).run session with ⟨_ | _, after⟩ <;> rfl

/-- Chunks without a flaw are queued. -/
theorem run_addChunks {chunks : List Chunk}
    (idle : session.console.passages = [(session.path, none)])
    (flawless : (Chunk.readChunks session.limit.number chunks).2 = none) :
    (addChunks chunks).run session =
      (.ok (), { session with
        queue := session.queue ++ Chunk.queued session.limit.number chunks
        received := session.received ++ (Chunk.passages chunks).toArray }) := by
  induction chunks generalizing session with
  | nil => simp [addChunks, Chunk.queued, Chunk.passages]
  | cons chunk chunks previous =>
    cases read : (Reading.ofText session.limit.number chunk.code).flaw with
    | some flaw => simp [Chunk.readChunks, read] at flawless
    | none =>
      simp only [Chunk.readChunks, read] at flawless
      rw [run_addChunks_cons, run_add_of_flawless ⟨_, idle⟩ chunk.line read]
      dsimp only
      refine (previous rfl ?_).trans ?_
      · exact flawless
      · simp [placed, receiving, ← idle, Chunk.queued, Chunk.passages]

/-- Of chunks with a flaw, those in front of it are queued, and the session stays at the one that has
it. -/
theorem run_addChunks_of_flaw {chunks : List Chunk} (alone : session.Alone) {chunk : Chunk}
    {flaw : Flaw}
    (found : (Chunk.readChunks session.limit.number chunks).2 = some (chunk, flaw)) :
    ∃ queue received, (addChunks chunks).run session =
      (.error (session.limit.amend (.error (flaw.toError chunk.code))),
        { session with queue, received }.placed (some ⟨chunk.code, chunk.line⟩)) := by
  induction chunks generalizing session with
  | nil => cases found
  | cons first chunks previous =>
    rw [run_addChunks_cons]
    cases read : (Reading.ofText session.limit.number first.code).flaw with
    | some other =>
      simp only [Chunk.readChunks, read, Option.some.injEq, Prod.mk.injEq] at found
      obtain ⟨rfl, rfl⟩ := found
      rw [run_add_of_flaw alone first.line read]
      exact ⟨session.queue, _, rfl⟩
    | none =>
      simp only [Chunk.readChunks, read] at found
      rw [run_add_of_flawless alone first.line read]
      exact previous (alone_placed _ none) found

/-- The warning about a file without forms. -/
def noForms [Host] (colored : Bool) (path : String) : String :=
  Style.warning.paint colored "warning: "
    ++ Style.emphasis.paint colored ("'" ++ path ++ "' contains no forms")

/-- Loading a file that can be read: its chunks are read, and one without any is warned about. -/
theorem run_load [Host] (session : Session) {content : Option (List Nat)} {text : String}
    (idle : session.console.passages = [(session.path, none)])
    (named : session.path ≠ interactivePath)
    (readable : decodeFile session.path content = .ok text) :
    (load content).run session =
      (addChunks (Chunk.split (Text.lines text))).run
        (if Chunk.split (Text.lines text) = [] then
          session.telling [noForms session.console.colored session.path]
        else session) := by
  have warned := Console.run_warn_general idle ("'" ++ session.path ++ "' contains no forms")
  simp only [load, run_bind, run_get, if_neg named, readable]
  by_cases empty : Chunk.split (Text.lines text) = []
  · simp only [empty, List.isEmpty_nil, if_true, run_bind, run_onConsole, warned]
    rfl
  · simp only [empty, List.isEmpty_iff, if_false]

end Session

/-! ### The run of a file -/

namespace Program

open Lisplet.Action

/-- Load a file and run its forms. -/
def processFile [Host] (content : Option (List Nat)) : SessionAction Unit := do
  Session.load content
  Session.runAndShow

/-- The session in which a file is run. -/
def fileSession (colored : Bool) (path : String) (limit : Int) : Session :=
  Session.start { colored } path false (.levels limit) false

/-- The session at the end of a run of a file. -/
def finalSession [Host] (colored : Bool) (path : String) (limit : Int)
    (content : Option (List Nat)) :
    Session :=
  ((processFile content).run (fileSession colored path limit)).2

/-- A fault that can be reported ends the run of a file with one report. -/
theorem conclude_error [Host] (session : Session) {fault : Fault} {error : Error}
    {passage : Passage}
    (fatal : session.console.fatal = true)
    (here : session.console.passages = [(session.path, some passage)])
    (told : fault.told? = some error) (sound : error.Sound) {styled : String}
    (sayable : error.styled session.console.colored = .ok styled) :
    ∃ report, Console.IsReport session.console.colored session.path passage error report ∧
      conclude session (.error fault) =
        { result := .error (.exit (some 1)), output := session.console.printed ++ report } := by
  obtain ⟨lines, shown⟩ : ∃ lines, session.console.reportLines error = .ok lines :=
    Console.announcement_ok sound sayable _ _
  refine ⟨Console.textOf lines, Console.isReport_of_reportLines here shown, ?_⟩
  simp only [conclude, Console.settle_of_fatal fatal told shown, Console.printed_writeLines]

variable (colored : Bool) {path text : String} {limit : Int} {content : Option (List Nat)}

/-- A file with a flaw: the run ends with one report, and nothing was evaluated. -/
theorem runFile_of_flaw [Host] (named : path ≠ Session.interactivePath)
    (readable : Session.decodeFile path content = .ok text) {chunk : Chunk} {found : Flaw}
    (flawed : (Chunk.readChunks limit (Chunk.split (Text.lines text))).2 = some (chunk, found)) :
    let final := finalSession colored path limit content
    final.store = .initial ∧ final.results = #[] ∧
      ∃ report, Console.IsReport colored path ⟨chunk.code, chunk.line⟩ (found.toError chunk.code)
          report ∧
        conclude final ((processFile content).run (fileSession colored path limit)).1 =
          { result := .error (.exit (some 1)), output := report } := by
  obtain ⟨member, read⟩ := Chunk.mem_of_readChunks flawed
  have loaded := Session.run_load (fileSession colored path limit) rfl named readable
  rw [if_neg (List.ne_nil_of_mem member)] at loaded
  have alone : (fileSession colored path limit).Alone := ⟨none, rfl⟩
  obtain ⟨queue, received, ran⟩ := Session.run_addChunks_of_flaw alone flawed
  have ended : (processFile content).run (fileSession colored path limit) =
      (.error (.error (found.toError chunk.code)),
        { fileSession colored path limit with queue, received }.placed (some ⟨chunk.code, chunk.line⟩)) := by
    rw [processFile, run_bind, loaded, ran]
    rfl
  have inside := Reading.start_le read
  obtain ⟨styled, sayable⟩ := Flaw.styled_toError inside colored
  simp only [finalSession, ended]
  refine ⟨rfl, rfl, ?_⟩
  have told : (Fault.error (found.toError chunk.code)).told? = some (found.toError chunk.code) := rfl
  exact conclude_error
    ({ fileSession colored path limit with queue, received }.placed (some ⟨chunk.code, chunk.line⟩)) rfl rfl
    told (Error.sound_toError inside) sayable

/-- A file without a flaw once it is loaded: all its forms are queued, and nothing was printed but the
warning about a file without any. -/
theorem run_load_of_flawless [Host] (named : path ≠ Session.interactivePath)
    (readable : Session.decodeFile path content = .ok text)
    (flawless : (Chunk.readChunks limit (Chunk.split (Text.lines text))).2 = none) :
    (Session.load content).run (fileSession colored path limit) =
      (.ok (), { (fileSession colored path limit).telling
          (if (Chunk.readChunks limit (Chunk.split (Text.lines text))).1 = [] then
            [Session.noForms colored path] else []) with
        queue := Chunk.queued limit (Chunk.split (Text.lines text))
        received := (Chunk.passages (Chunk.split (Text.lines text))).toArray }) := by
  have kept : ∀ chunk ∈ Chunk.split (Text.lines text),
      (Text.strip chunk.code).isEmpty = false := by
    rw [Chunk.split_eq_ofGroups (Text.newlineFree_lines text)]
    exact fun chunk => Chunk.not_blank_of_mem_ofGroups
  rw [Session.run_load (fileSession colored path limit) rfl named readable]
  by_cases empty : Chunk.split (Text.lines text) = []
  · rw [if_pos empty, empty]
    rfl
  · have forms : (Chunk.readChunks limit (Chunk.split (Text.lines text))).1 ≠ [] :=
      fun none => empty (Chunk.eq_nil_of_no_forms kept flawless none)
    rw [if_neg empty, if_neg forms]
    refine (Session.run_addChunks rfl ?_).trans ?_
    · exact flawless
    · rw [Session.telling, Console.writeLines_nil]
      simp [fileSession, Session.start, Limit.number]

/-- Without tracing the interpreter records no steps. -/
theorem steps_interpret [Host] (limit : Int) (store : Store) (forms : List Expr) :
    (interpret { limit } store forms).steps = [] := by
  refine List.eq_nil_iff_forall_not_mem.mpr fun step member => ?_
  exact (interpret_orderly { limit } store forms).1 step member

/-- A file without a flaw is run like its forms are interpreted. -/
theorem runFile_of_flawless [Host] (named : path ≠ Session.interactivePath)
    (readable : Session.decodeFile path content = .ok text)
    (flawless : (Chunk.readChunks limit (Chunk.split (Text.lines text))).2 = none)
    {forms : List Expr}
    (read : (Chunk.readChunks limit (Chunk.split (Text.lines text))).1 = forms) :
    let plain := interpret { limit } .initial forms
    let final := finalSession colored path limit content
    let queue := Chunk.queued limit (Chunk.split (Text.lines text))
    ∀ texts, Expr.printAll plain.values = .ok texts →
      final.store = plain.store ∧ final.queue = queue.drop (plain.values.length + 1) ∧
      final.path = path ∧ final.console.colored = colored ∧ final.console.fatal = true ∧
      final.console.passages = [(path, queue[plain.values.length]?.map Queued.passage)] ∧
      final.console.printed = Console.textOf
        ((if forms = [] then [Session.noForms colored path] else []) ++ texts) ∧
      ((processFile content).run (fileSession colored path limit)).1 =
        plain.outcome (.levels limit) := by
  intro plain final queue texts printed
  let loaded : Session := { (fileSession colored path limit).telling
    (if forms = [] then [Session.noForms colored path] else []) with
      queue, received := (Chunk.passages (Chunk.split (Text.lines text))).toArray }
  have load : (Session.load content).run (fileSession colored path limit) = (.ok (), loaded) := by
    rw [run_load_of_flawless colored named readable flawless, read]
  have form : queue.map Queued.form = forms := (Chunk.forms_queued flawless).trans read
  obtain ⟨lines, shown, shows, _⟩ := Session.run_runAndShow loaded rfl rfl
  have same : interpret loaded.settings loaded.store (loaded.queue.map Queued.form) = plain := by
    rw [show loaded.queue = queue from rfl, form]
    rfl
  rw [same] at shown shows
  obtain rfl : lines = [] := by
    rw [steps_interpret] at shown
    cases shown
    rfl
  have ended : (processFile content).run (fileSession colored path limit) =
      (plain.outcome (.levels limit),
        { (loaded.ran plain []).telling texts with results := #[] }) := by
    rw [processFile, run_bind, load]
    exact shows texts printed
  simp only [final, finalSession, ended]
  refine ⟨rfl, rfl, rfl, rfl, rfl, rfl, ?_, trivial⟩
  show Console.printed ((({ loaded.console.writeLines [] with passages := _ } :
    Console)).writeLines texts) = _
  rw [Console.writeLines_nil, Console.printed_writeLines, Console.textOf_append]
  exact congrArg (· ++ Console.textOf texts)
    (Console.printed_writeLines (fileSession colored path limit).console _)

/-- A file with a form that fails: the report of its error, if it can be told, follows the values. -/
theorem runFile_of_failure [Host] (named : path ≠ Session.interactivePath)
    (readable : Session.decodeFile path content = .ok text)
    (flawless : (Chunk.readChunks limit (Chunk.split (Text.lines text))).2 = none)
    {forms : List Expr}
    (read : (Chunk.readChunks limit (Chunk.split (Text.lines text))).1 = forms)
    {texts : List String} {fault : Fault} :
    let plain := interpret { limit } .initial forms
    let final := finalSession colored path limit content
    Expr.printAll plain.values = .ok texts → plain.failure = some fault →
      ∃ error, fault.told? = some error ∧ ∀ message, error.message = .ok message →
        ∃ chunk ∈ Chunk.split (Text.lines text),
          ∃ form ∈ (Reading.ofText limit chunk.code).forms,
            forms[plain.values.length]? = some form ∧
              ∃ report, Console.IsReport colored path ⟨chunk.code, chunk.line⟩ error report ∧
                conclude final ((processFile content).run (fileSession colored path limit)).1 =
                  { result := .error (.exit (some 1)), output := Console.textOf texts ++ report } := by
  intro plain final printed failed
  obtain ⟨_, _, samePath, sameColors, fatal, here, output, result⟩ :=
    runFile_of_flawless colored named readable flawless read texts printed
  have fewer := (length_interpret { limit } .initial forms).2 fault failed
  obtain ⟨error, told, fits⟩ :=
    ((interpret_orderly { limit } .initial forms).2 fault failed).told
  refine ⟨error, told, fun message sayable => ?_⟩
  obtain ⟨styled, tells⟩ := (fits.styled_ok_iff final.console.colored).mpr ⟨message, sayable⟩
  obtain ⟨chunk, inside, form, given, failing, stopped⟩ :=
    Chunk.exists_queued_at ((Chunk.forms_queued flawless).trans read) fewer
  have failure : plain.outcome (.levels limit) = .error fault := by
    rw [Interpretation.outcome, failed]
    rfl
  have nonempty : forms ≠ [] := List.ne_nil_of_length_pos (Nat.zero_lt_of_lt fewer)
  have place : final.console.passages = [(final.path, some ⟨chunk.code, chunk.line⟩)] := by
    rw [samePath]
    rw [stopped] at here
    exact here
  obtain ⟨report, isReport, concluded⟩ := conclude_error final fatal place told fits tells
  rw [samePath, sameColors] at isReport
  refine ⟨chunk, inside, form, given, failing, report, isReport, ?_⟩
  rw [result, failure, concluded, output, if_neg nonempty, List.nil_append]

/-- Arguments that name a file and ask for no steps run that file. -/
theorem run_eq_conclude [Host] {files : String → Option (List Nat)} {args : List String}
    {depth : Option Int}
    (asked : CommandLine.parse args =
      .run { file := some path, maxDepth := depth.map .levels, trace := false })
    (lines : List String) :
    run colored files lines args =
      conclude (finalSession colored path (depth.getD defaultLimit) (files path))
        ((processFile (files path)).run (fileSession colored path (depth.getD defaultLimit))).1 := by
  have chosen : limit { file := some path, maxDepth := depth.map .levels, trace := false } =
      .levels (depth.getD defaultLimit) := by
    cases depth <;> rfl
  simp only [run, asked, runFile, chosen]
  rfl

/-- **Running a file refines the plain interpreter.** The file is read as a whole before anything is
evaluated. If its text has a flaw, the run prints one report, of that flaw, and ends with code one, and
nothing was evaluated. Otherwise the forms are interpreted in a fresh store, and if the values can be
printed, they are printed in order, one on a line. If no form fails, nothing else is printed, except
that a file without forms is warned about. If one fails, the forms behind it are left in the queue, and
if its error can be told, one report of it follows the values and the run ends with code one. -/
theorem run_file_as_interpreted [Host] (colored : Bool) (files : String → Option (List Nat))
    (lines args : List String) (path text : String) (depth : Option Int)
    (asked : CommandLine.parse args =
      .run { file := some path, maxDepth := depth.map .levels, trace := false })
    (named : path ≠ Session.interactivePath)
    (readable : Session.decodeFile path (files path) = .ok text) :
    let limit := depth.getD defaultLimit
    let chunks := Chunk.split (Text.lines text)
    let code := Chunk.wholeText (Text.lines text)
    let whole := Reading.ofText limit code
    let plain := interpret { limit } .initial whole.forms
    let final := finalSession colored path limit (files path)
    let outcome := run colored files lines args
    (∃ result, outcome = conclude final result) ∧
      (∀ flaw, whole.flaw = some flaw →
        outcome.result = .error (.exit (some 1)) ∧ final.store = .initial ∧ final.results = #[] ∧
          ∃ chunk ∈ chunks, ∃ found, Chunk.SameFlaw 1 code (some (chunk, found)) (some flaw) ∧
            Console.IsReport colored path ⟨chunk.code, chunk.line⟩ (found.toError chunk.code)
              outcome.output) ∧
      (whole.flaw = none → ∀ texts, Expr.printAll plain.values = .ok texts →
        final.store = plain.store ∧
          final.queue.map Queued.form = whole.forms.drop (plain.values.length + 1) ∧
          (plain.failure = none →
            plain.values.length = whole.forms.length ∧ outcome.result = .ok () ∧
              outcome.output = Console.textOf
                (if whole.forms = [] then [Session.noForms colored path] else texts)) ∧
          ∀ fault, plain.failure = some fault →
            ∃ error, fault.told? = some error ∧ ∀ message, error.message = .ok message →
              outcome.result = .error (.exit (some 1)) ∧
                ∃ chunk ∈ chunks, ∃ form ∈ (Reading.ofText limit chunk.code).forms,
                  whole.forms[plain.values.length]? = some form ∧
                    ∃ report, outcome.output = Console.textOf texts ++ report ∧
                      Console.IsReport colored path ⟨chunk.code, chunk.line⟩ error report) := by
  intro limit chunks code whole plain final outcome
  have shown : outcome = conclude final
      ((processFile (files path)).run (fileSession colored path limit)).1 :=
    run_eq_conclude colored asked lines
  have alike := Chunk.readsAlike_split limit (Text.newlineFree_lines text)
  refine ⟨⟨_, shown⟩, fun flaw flawed => ?_, fun flawless texts printed => ?_⟩
  · have same := alike.flaw
    rw [flawed] at same
    obtain ⟨chunk, found, read⟩ := same.exists_part
    rw [read] at same
    obtain ⟨store, results, report, isReport, concluded⟩ :=
      runFile_of_flaw colored named readable read
    rw [shown, concluded]
    exact ⟨rfl, store, results, chunk, (Chunk.mem_of_readChunks read).1, found, same, isReport⟩
  · have same := alike.flaw
    rw [flawless] at same
    have sound := same.eq_none
    obtain ⟨store, queue, _, _, _, _, output, result⟩ :=
      runFile_of_flawless colored named readable sound alike.forms texts printed
    refine ⟨store, ?_, fun success => ?_, fun fault failed => ?_⟩
    · rw [queue, List.map_drop, Chunk.forms_queued sound, alike.forms]
    · have count := (length_interpret { limit } .initial whole.forms).1 success
      have shows : plain.outcome (.levels limit) = .ok () := by
        rw [Interpretation.outcome, success]
      rw [shown, result, shows]
      refine ⟨count, rfl, output.trans (congrArg Console.textOf ?_)⟩
      by_cases empty : whole.forms = []
      · have none : plain.values = [] := List.eq_nil_of_length_eq_zero (by rw [count, empty]; rfl)
        rw [none] at printed
        cases printed
        rw [if_pos empty, List.append_nil]
      · rw [if_neg empty, if_neg empty, List.nil_append]
    · obtain ⟨error, told, tells⟩ :=
        runFile_of_failure colored named readable sound alike.forms printed failed
      refine ⟨error, told, fun message sayable => ?_⟩
      obtain ⟨chunk, inside, form, given, failing, report, isReport, concluded⟩ :=
        tells message sayable
      rw [shown, concluded]
      exact ⟨rfl, chunk, inside, form, given, failing, report, rfl, isReport⟩

/-- A form over two lines, a name that is not bound, and a form that is never evaluated. -/
theorem run_file_as_interpreted_unbound :
    let text := "1 (+ 1\n2)\n\n(x) 4\n"
    let files := fun _ : String => some (text.toList.map Char.toNat)
    let outcome := run false files [] ["f", "--max-depth", "5"]
    let error : Error := { kind := .notFound, args := [.text "x"] }
    outcome.result = .error (.exit (some 1)) ∧
      ∃ passage report, outcome.output = "1\n3\n" ++ report ∧
        Console.IsReport false "f" passage error report := by
  intro text files outcome error
  let plain := interpret { limit := 5 } .initial
    (Reading.ofText 5 (Chunk.wholeText (Text.lines text))).forms
  have asked : CommandLine.parse ["f", "--max-depth", "5"] =
      .run { file := some "f", maxDepth := some (.levels 5), trace := false } := by
    decide +kernel
  have readable : Session.decodeFile "f" (files "f") = .ok text := by decide +kernel
  have flawless : (Reading.ofText 5 (Chunk.wholeText (Text.lines text))).flaw = none := by
    decide +kernel
  have values : plain.values = [.integer 1, .integer 3] := by decide +kernel
  have printed : Expr.printAll plain.values = .ok ["1", "3"] := by
    rw [values]
    rfl
  have failed : plain.failure = some (.error error) := by decide +kernel
  have message : error.message = .ok "identifier 'x' not found in scope" := rfl
  obtain ⟨_, _, shows⟩ := run_file_as_interpreted false files [] ["f", "--max-depth", "5"] "f" text
    (some 5) asked (by decide) readable
  obtain ⟨_, _, _, fails⟩ := shows flawless ["1", "3"] printed
  obtain ⟨_, told, tells⟩ := fails (.error error) failed
  cases told
  obtain ⟨ends, _, _, _, _, _, report, output, isReport⟩ := tells _ message
  exact ⟨ends, _, report, output, isReport⟩

end Program

end Lisplet
