import Lisplet.Proofs.Failures
import Lisplet.Session

/-!
Running the queue of a session.

A session that runs its queue does what a plain interpreter does with the queued forms: it evaluates
them in order in one store, keeps their values, and stops at the first one that fails. What the
session adds is where it stands: the passage of the form that failed, and the forms behind it that
are left in the queue.

* `Interpretation`, `interpret`: the plain interpreter.
* `Session.ran`: a session after its queue was run.
* `Session.run_runAll`: running the queue is interpreting its forms.
* `Session.run_runAndShow`: running the queue and printing the values.
-/

namespace Lisplet

/-! ### The plain interpreter -/

/-- What comes of forms that are evaluated in order: the steps and the values up to the first failure,
that failure if there is one, and the store then. -/
structure Interpretation where
  steps : List Step := []
  values : List Expr := []
  failure : Option Fault := none
  store : Store

/-- Evaluate forms in order, all at depth zero in the root scope of one store, up to the first one that
fails. -/
def interpret [Host] (settings : Settings) (store : Store) : List Expr → Interpretation
  | [] => { store }
  | form :: forms =>
    match (form.eval settings 0 Session.rootScope).run { store } with
    | (.error fault, world) =>
      { steps := world.steps.toList, failure := some fault, store := world.store }
    | (.ok value, world) =>
      let rest := interpret settings world.store forms
      { rest with steps := world.steps.toList ++ rest.steps, values := value :: rest.values }

/-- How the run of a session below a limit ends. -/
def Interpretation.outcome (plain : Interpretation) (limit : Limit) : Except Fault Unit :=
  match plain.failure with
  | none => .ok ()
  | some fault => .error (limit.amend fault)

/-- All forms have a value, or the one behind those with a value failed. -/
theorem length_interpret [Host] (settings : Settings) (store : Store) (forms : List Expr) :
    let plain := interpret settings store forms
    (plain.failure = none → plain.values.length = forms.length) ∧
      ∀ fault, plain.failure = some fault → plain.values.length < forms.length := by
  induction forms generalizing store with
  | nil => exact ⟨fun _ => rfl, fun _ failed => nomatch failed⟩
  | cons form forms previous =>
    simp only [interpret]
    rcases (form.eval settings 0 Session.rootScope).run { store } with ⟨fault | value, world⟩
    · exact ⟨fun success => (nomatch success), fun _ _ => Nat.zero_lt_succ _⟩
    · obtain ⟨success, failed⟩ := previous world.store
      exact ⟨fun none => congrArg (· + 1) (success none),
        fun fault some => Nat.succ_lt_succ (failed fault some)⟩

/-- The interpreter records steps and fails as evaluation does. -/
theorem interpret_orderly [Host] (settings : Settings) (store : Store) (forms : List Expr) :
    let plain := interpret settings store forms
    (∀ step ∈ plain.steps, step.Due settings.tracing) ∧
      ∀ fault, plain.failure = some fault → fault.Ordinary settings.tracing := by
  induction forms generalizing store with
  | nil => exact ⟨fun _ none => (nomatch none), fun _ failed => nomatch failed⟩
  | cons form forms previous =>
    obtain ⟨due, faults⟩ := form.eval_orderly settings 0 Session.rootScope store
    simp only [interpret]
    rcases ended : (form.eval settings 0 Session.rootScope).run { store } with
      ⟨fault | value, world⟩ <;> rw [ended] at due faults
    · refine ⟨fun step member => due step (Array.mem_toList_iff.mp member), fun other failed => ?_⟩
      cases failed
      exact faults fault rfl
    · obtain ⟨dueLater, faultsLater⟩ := previous world.store
      refine ⟨fun step member => ?_, faultsLater⟩
      obtain early | later := List.mem_append.mp member
      · exact due step (Array.mem_toList_iff.mp early)
      · exact dueLater step later

/-- Steps that were recorded to be shown, or not at all, can be shown. -/
theorem Step.lines_of_due [Host] {tracing : Tracing} (mode : tracing = .shown ∨ tracing = .off)
    {steps : List Step} (due : ∀ step ∈ steps, step.Due tracing) :
    ∃ lines, steps.mapM Step.line = .ok lines := by
  obtain ⟨lines, all, _⟩ | ⟨step, member, fault, stuck, _⟩ := mapM_ok_or_error steps Step.line
  · exact ⟨lines, all⟩
  · have fits := due step member
    obtain rfl | rfl := mode
    · obtain ⟨line, shown⟩ := fits
      rw [stuck] at shown
      cases shown
    · exact fits.elim

/-- The passages of chunks. -/
def Chunk.passages (chunks : List Chunk) : List Passage :=
  chunks.map fun chunk => ⟨chunk.code, chunk.line⟩

namespace Session

open Lisplet.Action

variable {session : Session}

/-! ### Single operations -/

/-- How the forms of a session are evaluated. -/
def settings (session : Session) : Settings :=
  { limit := session.limit.number, tracing := if session.traced then .shown else .off }

theorem tracing_settings (session : Session) :
    session.settings.tracing = .shown ∨ session.settings.tracing = .off := by
  unfold settings
  cases session.traced <;> simp

/-- The session with its own path as the only one of its console, at the given passage. -/
def placed (session : Session) (passage : Option Passage) : Session :=
  { session with console := { session.console with passages := [(session.path, passage)] } }

/-- The console of the session knows the path of the session only. -/
def Alone (session : Session) : Prop :=
  ∃ passage, session.console.passages = [(session.path, passage)]

theorem alone_placed (session : Session) (passage : Option Passage) :
    (session.placed passage).Alone :=
  ⟨passage, rfl⟩

theorem run_onConsole {α : Type} (action : Reporting α) (session : Session) :
    (onConsole action).run session =
      ((action.run session.console).1,
        { session with console := (action.run session.console).2 }) := by
  simp only [onConsole, run_bind, run_get]
  rcases action.run session.console with ⟨_ | _, console⟩ <;> rfl

theorem run_setPassage (alone : session.Alone) (passage : Passage) :
    (setPassage passage).run session = (.ok (), session.placed (some passage)) := by
  obtain ⟨old, only⟩ := alone
  simp [setPassage, Console.setPassage, only, Console.assign, placed]

theorem run_clearPassage (alone : session.Alone) :
    clearPassage.run session = (.ok (), session.placed none) := by
  obtain ⟨old, only⟩ := alone
  simp [clearPassage, Console.clearPassage, only, Console.assign, placed]

/-- Something that was done with all items of a list was done with the first one. -/
theorem mapM_cons_eq_ok {ε α β : Type} {act : α → Except ε β} {first : α} {rest : List α}
    {values : List β} (done : (first :: rest).mapM act = .ok values) :
    ∃ value others, act first = .ok value ∧ rest.mapM act = .ok others ∧
      values = value :: others := by
  rw [List.mapM_cons] at done
  cases one : act first with
  | error failure =>
    rw [one] at done
    cases (done : Except.error failure = Except.ok values)
  | ok value =>
    cases all : rest.mapM act with
    | error failure =>
      rw [one, all] at done
      cases (done : Except.error failure = Except.ok values)
    | ok others =>
      rw [one, all] at done
      cases (done : Except.ok (value :: others) = Except.ok values)
      exact ⟨value, others, rfl, rfl, rfl⟩

/-- Steps that can be shown are printed, each on a line. -/
theorem run_showSteps [Host] {steps : List Step} {lines : List String} (console : Console)
    (shown : steps.mapM Step.line = .ok lines) :
    (steps.forM Console.showStep).run console =
      (.ok (), console.writeLines (lines.map (Style.step.paint console.colored))) := by
  induction steps generalizing lines console with
  | nil =>
    cases shown
    simp
  | cons step steps previous =>
    obtain ⟨line, others, first, rest, rfl⟩ := mapM_cons_eq_ok shown
    have one : (Console.showStep step).run console =
        (.ok (), console.writeLines [Style.step.paint console.colored line]) := by
      simp [Console.showStep, run_bind, first, Console.writeLine_eq]
    rw [List.forM_eq_forM, List.forM_cons, run_bind, one]
    refine (previous (console.writeLines _) rest).trans ?_
    simp

/-- A session in which a form was evaluated, with the store and the lines of the steps it left. -/
def evaluated [Host] (session : Session) (store : Store) (lines : List String) : Session :=
  { session with
    store
    console := session.console.writeLines (lines.map (Style.step.paint session.console.colored)) }

/-- What an evaluation in a session does: it prints its steps and leaves its store, and the limit has
its say on a failure. -/
theorem run_evaluate [Host] (session : Session) {form : Expr} {result : Except Fault Expr}
    {world : World}
    (ended : (form.eval session.settings 0 rootScope).run { store := session.store } =
      (result, world)) :
    ∃ lines, world.steps.toList.mapM Step.line = .ok lines ∧
      (evaluate form).run session =
        (result.mapError session.limit.amend, session.evaluated world.store lines) := by
  have due := (form.eval_orderly session.settings 0 rootScope session.store).1
  rw [ended] at due
  obtain ⟨lines, shown⟩ : ∃ lines, world.steps.toList.mapM Step.line = .ok lines :=
    Step.lines_of_due session.tracing_settings fun step member =>
      due step (Array.mem_toList_iff.mp member)
  refine ⟨lines, shown, ?_⟩
  rw [settings] at ended
  rw [evaluate, run_bind, run_get]
  dsimp only
  rw [ended]
  dsimp only
  rw [run_bind, run_set]
  dsimp only
  rw [run_bind, run_onConsole, run_showSteps session.console shown]
  cases result <;> rfl

/-! ### Reading -/

/-- The session with a further passage that was given to it. -/
def receiving (session : Session) (passage : Passage) : Session :=
  { session with received := session.received.push passage }

theorem run_receive (passage : Passage) (session : Session) :
    (receive passage).run session = (.ok (), session.receiving passage) := rfl

/-- A text without a flaw is queued with its passage. -/
theorem run_add_of_flawless (alone : session.Alone) {code : String} (line : Int)
    (flawless : (Reading.ofText session.limit.number code).flaw = none) :
    (add code line).run session =
      (.ok (Reading.ofText session.limit.number code).forms,
        { session.receiving ⟨code, line⟩ with
          queue := session.queue ++ (Reading.ofText session.limit.number code).forms.map
            (Queued.mk ⟨code, line⟩) }.placed none) := by
  have given : (session.receiving ⟨code, line⟩).Alone := alone
  rw [add, run_bind, run_receive]
  dsimp only
  rw [run_bind, run_setPassage given]
  dsimp only
  rw [run_bind, run_get]
  simp only [placed, receiving, flawless, run_bind, run_modify]
  rw [run_clearPassage ⟨_, rfl⟩]
  rfl

/-- A text with a flaw is not queued, and the session stays at its passage. -/
theorem run_add_of_flaw (alone : session.Alone) {code : String} (line : Int) {flaw : Flaw}
    (found : (Reading.ofText session.limit.number code).flaw = some flaw) :
    (add code line).run session =
      (.error (session.limit.amend (.error (flaw.toError code))),
        (session.receiving ⟨code, line⟩).placed (some ⟨code, line⟩)) := by
  have given : (session.receiving ⟨code, line⟩).Alone := alone
  rw [add, run_bind, run_receive]
  dsimp only
  rw [run_bind, run_setPassage given]
  dsimp only
  rw [run_bind, run_get]
  simp only [placed, receiving, found, run_throw]

/-! ### The queue -/

/-- A queued form that has a value. -/
theorem run_runOne_of_ok [Host] (alone : session.Alone) {queued : Queued} {value : Expr}
    {world : World}
    (ended : (queued.form.eval session.settings 0 rootScope).run { store := session.store } =
      (.ok value, world)) :
    ∃ lines, world.steps.toList.mapM Step.line = .ok lines ∧
      (runOne queued).run session =
        (.ok (), { session.evaluated world.store lines with
          results := session.results.push value }.placed none) := by
  obtain ⟨lines, shown, ran⟩ := run_evaluate (session.placed (some queued.passage)) ended
  refine ⟨lines, shown, ?_⟩
  rw [runOne, run_bind, run_setPassage alone]
  dsimp only
  rw [run_bind, ran]
  simp only [Except.mapError, run_bind, run_modify]
  rw [run_clearPassage ⟨_, rfl⟩]
  rfl

/-- A queued form that fails. -/
theorem run_runOne_of_error [Host] (alone : session.Alone) {queued : Queued} {fault : Fault}
    {world : World}
    (ended : (queued.form.eval session.settings 0 rootScope).run { store := session.store } =
      (.error fault, world)) :
    ∃ lines, world.steps.toList.mapM Step.line = .ok lines ∧
      (runOne queued).run session =
        (.error (session.limit.amend fault),
          (session.evaluated world.store lines).placed (some queued.passage)) := by
  obtain ⟨lines, shown, ran⟩ := run_evaluate (session.placed (some queued.passage)) ended
  refine ⟨lines, shown, ?_⟩
  rw [runOne, run_bind, run_setPassage alone]
  dsimp only
  rw [run_bind, ran]
  rfl

/-- A session after its queue was run: it has the values, it stands at the form that failed, if there is
one, and the forms behind that one are left. -/
def ran [Host] (session : Session) (plain : Interpretation) (lines : List String) : Session :=
  { session.evaluated plain.store lines with
    queue := session.queue.drop (plain.values.length + 1)
    results := session.results ++ plain.values.toArray }.placed
      (session.queue[plain.values.length]?.map Queued.passage)

/-- A session in which one form has a value, and in which the forms behind it were run. -/
theorem ran_cons [Host] {first : Queued} {rest : List Queued}
    (queued : session.queue = first :: rest)
    (value : Expr) (store : Store) (plain : Interpretation) (steps : List Step)
    (lines others : List String) :
    ({ evaluated { session with queue := rest } store lines with
        results := session.results.push value }.placed none).ran plain others =
      session.ran { plain with steps, values := value :: plain.values } (lines ++ others) := by
  simp [ran, queued, evaluated, placed, Console.writeLines, Array.append_assoc]

/-- Running the queue is interpreting its forms. -/
theorem run_runAll [Host] {waiting : List Queued} (queued : session.queue = waiting)
    (idle : session.console.passages = [(session.path, none)]) :
    let plain := interpret session.settings session.store (waiting.map Queued.form)
    ∃ lines, plain.steps.mapM Step.line = .ok lines ∧
      (runAll waiting).run session = (plain.outcome session.limit, session.ran plain lines) := by
  induction waiting generalizing session with
  | nil =>
    refine ⟨[], rfl, ?_⟩
    obtain ⟨⟨colored, fatal, passages, output⟩, path, interactive, limit, traced, store, queue,
      results, received⟩ := session
    obtain rfl : queue = [] := queued
    obtain rfl : passages = [(path, none)] := idle
    simp [runAll, interpret, Interpretation.outcome, ran, evaluated, placed]
  | cons first rest previous =>
    have alone : Alone { session with queue := rest } := ⟨none, idle⟩
    have started : (runAll (first :: rest)).run session =
        (runOne first >>= fun _ => runAll rest).run { session with queue := rest } := rfl
    rw [started, run_bind]
    rcases ended : (first.form.eval session.settings 0 rootScope).run { store := session.store }
      with ⟨fault | value, world⟩
    · obtain ⟨lines, shown, one⟩ := run_runOne_of_error alone ended
      simp only [List.map_cons, interpret, ended, one]
      refine ⟨lines, shown, ?_⟩
      simp [Interpretation.outcome, ran, queued, evaluated, placed]
    · obtain ⟨lines, shown, one⟩ := run_runOne_of_ok alone ended
      let middle := { evaluated { session with queue := rest } world.store lines with
        results := session.results.push value }.placed none
      have follows : middle.queue = rest := rfl
      obtain ⟨others, later, run⟩ := previous follows rfl
      have all : (world.steps.toList ++ (interpret session.settings world.store
          (rest.map Queued.form)).steps).mapM Step.line = .ok (lines ++ others) := by
        rw [List.mapM_append, shown]
        exact congrArg (fun result => result >>= fun more => .ok (lines ++ more)) later
      simp only [List.map_cons, interpret, ended, one]
      exact ⟨lines ++ others, all,
        run.trans (congrArg (Prod.mk _) (ran_cons queued value _ _ _ lines others))⟩

/-! ### The results -/

/-- Print the value of a form. -/
def showValue (value : Expr) : SessionAction Unit :=
  match value.printed with
  | .ok text => modifyConsole (Console.writeLine text)
  | .error fault => throw fault

/-- The session with further lines on its console. -/
def telling (session : Session) (lines : List String) : Session :=
  { session with console := session.console.writeLines lines }

theorem telling_telling (session : Session) (first second : List String) :
    (session.telling first).telling second = session.telling (first ++ second) := by
  simp [telling]

theorem run_showValue {value : Expr} {text : String} (printed : value.print = .ok text)
    (session : Session) : (showValue value).run session = (.ok (), session.telling [text]) := by
  simp [showValue, Expr.printed, printed, Except.mapError, modifyConsole, Console.writeLine_eq,
    telling]

theorem printAll_eq_mapM (values : List Expr) : Expr.printAll values = values.mapM Expr.print := by
  induction values with
  | nil => rfl
  | cons value values previous => rw [Expr.printAll, List.mapM_cons, previous]

/-- Values that can be printed are printed in order, each on a line. -/
theorem run_showValues {values : List Expr} {texts : List String}
    (printed : Expr.printAll values = .ok texts) (session : Session) :
    (values.forM showValue).run session = (.ok (), session.telling texts) := by
  rw [printAll_eq_mapM] at printed
  induction values generalizing texts session with
  | nil =>
    cases printed
    simp [telling]
  | cons value values previous =>
    obtain ⟨text, others, one, all, rfl⟩ := mapM_cons_eq_ok printed
    rw [List.forM_eq_forM, List.forM_cons, run_bind, run_showValue one]
    refine (previous all (session.telling [text])).trans ?_
    rw [telling_telling, List.singleton_append]

/-- Of values that cannot all be printed, some are printed before the first one that cannot. -/
theorem run_showValues_stuck {values : List Expr} {number : Double}
    (stuck : Expr.printAll values = .error number) (session : Session) :
    ∃ texts, (values.forM showValue).run session =
      (.error (.breakdown (.floatRange number)), session.telling texts) := by
  rw [printAll_eq_mapM] at stuck
  induction values generalizing session with
  | nil => cases stuck
  | cons value values previous =>
    rw [List.mapM_cons] at stuck
    rw [List.forM_eq_forM, List.forM_cons, run_bind]
    cases one : value.print with
    | error other =>
      rw [one] at stuck
      cases (stuck : Except.error other = Except.error number)
      refine ⟨[], ?_⟩
      simp [showValue, Expr.printed, one, Except.mapError, telling]
    | ok text =>
      cases all : values.mapM Expr.print with
      | ok others =>
        rw [one, all] at stuck
        cases stuck
      | error other =>
        rw [one, all] at stuck
        cases (stuck : Except.error other = Except.error number)
        obtain ⟨texts, ran⟩ := previous all (session.telling [text])
        refine ⟨text :: texts, ?_⟩
        rw [run_showValue one]
        refine ran.trans ?_
        rw [telling_telling, List.singleton_append]

/-- What is printed after the forms were run, as far as it can be. -/
theorem run_showResults {texts : List String}
    (printed : Expr.printAll session.results.toList = .ok texts) :
    showResults.run session = (.ok (), { session.telling texts with results := #[] }) := by
  have unfolded : showResults.run session =
      (session.results.toList.forM showValue >>= fun _ =>
        modify fun session => { session with results := #[] }).run session := rfl
  rw [unfolded, run_bind, run_showValues printed]
  rfl

theorem run_showResults_stuck {number : Double}
    (stuck : Expr.printAll session.results.toList = .error number) :
    ∃ texts, showResults.run session =
      (.error (.breakdown (.floatRange number)), session.telling texts) := by
  have unfolded : showResults.run session =
      (session.results.toList.forM showValue >>= fun _ =>
        modify fun session => { session with results := #[] }).run session := rfl
  obtain ⟨texts, ran⟩ := run_showValues_stuck stuck session
  refine ⟨texts, ?_⟩
  rw [unfolded, run_bind, ran]

theorem run_ensuring (action after : SessionAction Unit) (session : Session) :
    (ensuring action after).run session =
      match after.run (action.run session).2 with
      | (.ok _, final) => ((action.run session).1, final)
      | (.error fault, final) => (.error fault, final) := rfl

/-- A session that stands at no passage and has no results yet runs its queue as the interpreter does,
and then prints the values if all of them can be printed. Otherwise that is the fault. -/
theorem run_runAndShow [Host] (session : Session)
    (idle : session.console.passages = [(session.path, none)])
    (fresh : session.results = #[]) :
    let plain := interpret session.settings session.store (session.queue.map Queued.form)
    ∃ lines, plain.steps.mapM Step.line = .ok lines ∧
      (∀ texts, Expr.printAll plain.values = .ok texts →
        runAndShow.run session =
          (plain.outcome session.limit,
            { (session.ran plain lines).telling texts with results := #[] })) ∧
      ∀ number, Expr.printAll plain.values = .error number →
        ∃ texts, runAndShow.run session =
          (.error (.breakdown (.floatRange number)), (session.ran plain lines).telling texts) := by
  intro plain
  obtain ⟨lines, shown, ran⟩ := run_runAll rfl idle
  have ended : run.run session = (plain.outcome session.limit, session.ran plain lines) := ran
  have results : (session.ran plain lines).results.toList = plain.values := by
    simp [Session.ran, placed, fresh]
  refine ⟨lines, shown, fun texts printed => ?_, fun number stuck => ?_⟩
  · rw [← results] at printed
    rw [runAndShow, run_ensuring, ended]
    dsimp only
    rw [run_showResults printed]
  · rw [← results] at stuck
    obtain ⟨texts, failed⟩ := run_showResults_stuck stuck
    refine ⟨texts, ?_⟩
    rw [runAndShow, run_ensuring, ended]
    dsimp only
    rw [failed]

end Session

end Lisplet
