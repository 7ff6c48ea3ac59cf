import Lisplet.Proofs.Running
import Lisplet.Proofs.SessionStates
import Lisplet.Terminal

/-!
The ledger of a session.

Whatever is done with a session comes down to single events: a text is read into the queue or refused,
the first form of the queue is evaluated, the latest result is taken. Each event moves forms from one
place to the next, so at every point the forms that were evaluated, followed by those that wait, are
the forms that were read. A run that fails stops at the form that failed, and the console stands at the
passage of that form.

* `Session.Event`, `Session.Happens`: the events, and what each of them does to a session.
* `Session.Happens.balances`: one event moves forms and values as the ledger says.
* `Session.HappensAll.balances`: so does a sequence of events.
* `Session.Operation.happensAll_events`: every operation is a sequence of events.
* `Session.ledger_balances`: the ledger of a session that was opened and then used in any way.
-/

namespace Lisplet

/-! ### The passage of a path -/

namespace Console

theorem assign_assign (path : String) (first second : Option Passage)
    (entries : List (String × Option Passage)) :
    assign path second (assign path first entries) = assign path second entries := by
  induction entries with
  | nil => simp [assign]
  | cons entry entries previous =>
    by_cases same : entry.1 = path
    · simp [assign, same]
    · simp [assign, same, previous]

/-- A path has the passage that was last assigned to it. -/
theorem lookup_assign (path : String) (passage : Option Passage)
    (entries : List (String × Option Passage)) :
    (assign path passage entries).lookup path = some passage := by
  induction entries with
  | nil => simp [assign]
  | cons entry entries previous =>
    by_cases same : entry.1 = path
    · simp [assign, same]
    · have other : (path == entry.1) = false := by simpa using Ne.symm same
      rw [assign, if_neg same, List.lookup_cons, other]
      exact previous

end Console

namespace Session

open Lisplet.Action

variable {session next : Session}

/-- The session with its console at a passage of its path, or at none. -/
def locatedAt (session : Session) (passage : Option Passage) : Session :=
  { session with
    console := { session.console with
      passages := Console.assign session.path passage session.console.passages } }

theorem locatedAt_locatedAt (session : Session) (first second : Option Passage) :
    (session.locatedAt first).locatedAt second = session.locatedAt second := by
  simp only [locatedAt, Console.assign_assign]

/-- Reading a text: its forms are queued with its passage, or it has a flaw, and then nothing changes
but the place of the console. In either case the session has been given the text. -/
theorem run_add (session : Session) (code : String) (line : Int) :
    (add code line).run session =
      match (Reading.ofText session.limit.number code).flaw with
      | some flaw =>
        (.error (session.limit.amend (.error (flaw.toError code))),
          (session.receiving ⟨code, line⟩).locatedAt (some ⟨code, line⟩))
      | none =>
        (.ok (Reading.ofText session.limit.number code).forms,
          { session.receiving ⟨code, line⟩ with
            queue := session.queue ++ (Reading.ofText session.limit.number code).forms.map
              (Queued.mk ⟨code, line⟩) }.locatedAt none) := by
  have started : (add code line).run session = (do
      let limit := (← get).limit
      match (Reading.ofText limit.number code).flaw with
      | some flaw => throw (limit.amend (.error (flaw.toError code)))
      | none =>
        modify fun session => { session with queue := session.queue ++
          (Reading.ofText limit.number code).forms.map (Queued.mk ⟨code, line⟩) }
        clearPassage
        return (Reading.ofText limit.number code).forms : SessionAction (List Expr)).run
          ((session.receiving ⟨code, line⟩).locatedAt (some ⟨code, line⟩)) := rfl
  rw [started, run_bind, run_get]
  show (match (Reading.ofText session.limit.number code).flaw with
    | some flaw => throw _
    | none => _ : SessionAction (List Expr)).run _ = _
  cases (Reading.ofText session.limit.number code).flaw with
  | some flaw => rfl
  | none =>
    refine congrArg (Prod.mk _) ?_
    exact locatedAt_locatedAt { session.receiving ⟨code, line⟩ with
      queue := session.queue ++ (Reading.ofText session.limit.number code).forms.map
        (Queued.mk ⟨code, line⟩) } (some ⟨code, line⟩) none

/-- Evaluating a queued form: its value is kept, or it fails, and then the console stays at its
passage. -/
theorem run_runOne [Host] (session : Session) (entry : Queued) {result : Except Fault Expr}
    {world : World}
    (ended : (entry.form.eval session.settings 0 rootScope).run { store := session.store } =
      (result, world)) :
    ∃ lines, (runOne entry).run session =
      match result with
      | .ok value =>
        (.ok (), { (session.locatedAt (some entry.passage)).evaluated world.store lines with
          results := session.results.push value }.locatedAt none)
      | .error fault =>
        (.error (session.limit.amend fault),
          (session.locatedAt (some entry.passage)).evaluated world.store lines) := by
  have started : (runOne entry).run session = (do
      let value ← evaluate entry.form
      modify fun session => { session with results := session.results.push value }
      clearPassage : SessionAction Unit).run (session.locatedAt (some entry.passage)) := rfl
  obtain ⟨lines, _, ran⟩ := run_evaluate (session.locatedAt (some entry.passage)) ended
  refine ⟨lines, ?_⟩
  rw [started, run_bind, ran]
  cases result <;> rfl

/-! ### Events -/

/-- What happens to a session, one thing at a time. -/
inductive Event where
  /-- The forms of a text were queued. -/
  | queued (passage : Passage) (forms : List Expr)
  /-- A text could not be read. -/
  | refused (passage : Passage) (fault : Fault)
  /-- The first form of the queue was evaluated. -/
  | evaluated (entry : Queued) (result : Except Fault Expr)
  /-- The latest result was taken. -/
  | popped (value : Expr)
  /-- There was no result to take. -/
  | missed
  /-- A warning was printed. -/
  | warned

/-- What each event does to a session. -/
inductive Happens [Host] : Session → Event → Session → Prop
  | queued {session next : Session} {code : String} {line : Int} {forms : List Expr}
      (added : (add code line).run session = (.ok forms, next)) :
      Happens session (.queued ⟨code, line⟩ forms) next
  | refused {session next : Session} {code : String} {line : Int} {fault : Fault}
      (failed : (add code line).run session = (.error fault, next)) :
      Happens session (.refused ⟨code, line⟩ fault) next
  | evaluated {session next : Session} {entry : Queued} {rest : List Queued}
      {result : Except Fault Expr} {world : World} {outcome : Except Fault Unit}
      (first : session.queue = entry :: rest)
      (ended : (entry.form.eval session.settings 0 rootScope).run { store := session.store } =
        (result, world))
      (ran : (runOne entry).run { session with queue := rest } = (outcome, next)) :
      Happens session (.evaluated entry result) next
  | popped {session next : Session} {value : Expr} (taken : pop.run session = (.ok value, next)) :
      Happens session (.popped value) next
  | missed {session next : Session} {fault : Fault}
      (failed : pop.run session = (.error fault, next)) : Happens session .missed next
  | warned {session next : Session} {error : Error} {outcome : Except Fault Unit}
      (printed : (onConsole (Console.warn error)).run session = (outcome, next)) :
      Happens session .warned next

/-- Events that happen one after the other. -/
inductive HappensAll [Host] : Session → List Event → Session → Prop
  | none {session : Session} : HappensAll session [] session
  | next {session middle final : Session} {event : Event} {events : List Event}
      (first : Happens session event middle) (rest : HappensAll middle events final) :
      HappensAll session (event :: events) final

theorem HappensAll.append [Host] {middle final : Session} {earlier later : List Event}
    (first : HappensAll session earlier middle) (second : HappensAll middle later final) :
    HappensAll session (earlier ++ later) final := by
  induction first with
  | none => exact second
  | next event _ previous => exact .next event (previous second)

/-- Events that happened can be cut in two at any point. -/
theorem HappensAll.split [Host] {final : Session} {earlier later : List Event}
    (all : HappensAll session (earlier ++ later) final) :
    ∃ point, HappensAll session earlier point ∧ HappensAll point later final := by
  induction earlier generalizing session with
  | nil => exact ⟨session, .none, all⟩
  | cons event earlier previous =>
    obtain _ | ⟨first, rest⟩ := all
    obtain ⟨point, before, behind⟩ := previous rest
    exact ⟨point, .next first before, behind⟩

/-! ### The ledger -/

namespace Event

/-- The forms that an event puts into the queue. -/
def added : Event → List Queued
  | .queued passage forms => forms.map (Queued.mk passage)
  | _ => []

/-- The forms that an event evaluates. -/
def spent : Event → List Queued
  | .evaluated entry _ => [entry]
  | _ => []

/-- The results after an event: a value that a form has is put at the end, and taken from there. -/
def keep (values : List Expr) : Event → List Expr
  | .evaluated _ (.ok value) => values ++ [value]
  | .popped _ => values.dropLast
  | _ => values

end Event

/-- The forms that were read in the course of events. -/
def added (events : List Event) : List Queued :=
  events.flatMap Event.added

/-- The forms that were evaluated in the course of events, with or without success. -/
def spent (events : List Event) : List Queued :=
  events.flatMap Event.spent

theorem spent_append (earlier later : List Event) :
    spent (earlier ++ later) = spent earlier ++ spent later :=
  List.flatMap_append

/-- The values that the forms had in the course of events, without those that were taken. -/
def kept (events : List Event) : List Expr :=
  events.foldl Event.keep []

theorem run_pop (session : Session) :
    pop.run session =
      match session.results.back? with
      | some value => (.ok value, { session with results := session.results.pop })
      | none => (.error (.breakdown .noResults), session) := by
  rw [pop, run_bind, run_get]
  dsimp only
  cases session.results.back? <;> rfl

/-- Every event moves forms through the queue in order, and values to and from the end of the
results. It leaves the limit as it is. -/
theorem Happens.balances [Host] {event : Event} (happens : Happens session event next) :
    event.spent ++ next.queue = session.queue ++ event.added ∧
      next.results.toList = event.keep session.results.toList ∧ next.limit = session.limit := by
  cases happens with
  | @queued _ code line forms read =>
    rw [run_add] at read
    cases flaw : (Reading.ofText session.limit.number code).flaw <;> rw [flaw] at read <;>
      cases read
    exact ⟨rfl, rfl, rfl⟩
  | @refused _ code line fault failed =>
    rw [run_add] at failed
    cases flaw : (Reading.ofText session.limit.number code).flaw <;> rw [flaw] at failed <;>
      cases failed
    exact ⟨(List.append_nil _).symm, rfl, rfl⟩
  | @evaluated _ entry rest result world outcome first ended ran =>
    obtain ⟨lines, one⟩ := run_runOne { session with queue := rest } entry ended
    rw [ran] at one
    cases result <;> cases one
    · exact ⟨first.symm.trans (List.append_nil _).symm, rfl, rfl⟩
    · exact ⟨first.symm.trans (List.append_nil _).symm, Array.toList_push, rfl⟩
  | popped taken =>
    rw [run_pop] at taken
    cases last : session.results.back? <;> rw [last] at taken <;> cases taken
    exact ⟨(List.append_nil _).symm, Array.toList_pop, rfl⟩
  | missed failed =>
    rw [run_pop] at failed
    cases last : session.results.back? <;> rw [last] at failed <;> cases failed
    exact ⟨(List.append_nil _).symm, rfl, rfl⟩
  | warned printed =>
    rw [run_onConsole] at printed
    cases printed
    exact ⟨(List.append_nil _).symm, rfl, rfl⟩

/-- A sequence of events, by induction on it. -/
theorem HappensAll.balances [Host] {events : List Event} (all : HappensAll session events next) :
    spent events ++ next.queue = session.queue ++ added events ∧
      next.results.toList = events.foldl Event.keep session.results.toList := by
  induction all with
  | none => exact ⟨(List.append_nil _).symm, rfl⟩
  | @next session middle final event events first _ previous =>
    obtain ⟨moved, values, _⟩ := first.balances
    obtain ⟨movedLater, valuesLater⟩ := previous
    constructor
    · calc spent (event :: events) ++ final.queue
          = event.spent ++ (spent events ++ final.queue) := by
            rw [spent, List.flatMap_cons, List.append_assoc]
            rfl
        _ = (event.spent ++ middle.queue) ++ added events := by
            rw [movedLater, List.append_assoc]
        _ = session.queue ++ added (event :: events) := by
            rw [moved, List.append_assoc]
            rfl
    · rw [valuesLater, values]
      rfl

/-! ### Operations as events -/

/-- The evaluations of a run: forms are evaluated in order in one store, up to the first one that
fails. -/
def evaluations [Host] (settings : Settings) (store : Store) : List Queued → List Event
  | [] => []
  | entry :: rest =>
    match (entry.form.eval settings 0 rootScope).run { store } with
    | (.error fault, _) => [.evaluated entry (.error fault)]
    | (.ok value, world) =>
      .evaluated entry (.ok value) :: evaluations settings world.store rest

/-- Evaluations put nothing into the queue. -/
theorem added_evaluations [Host] (settings : Settings) (store : Store) (waiting : List Queued) :
    added (evaluations settings store waiting) = [] := by
  fun_induction evaluations settings store waiting with
  | case1 => rfl
  | case2 => rfl
  | case3 store entry rest value world ended previous => exact previous

/-- The events that an operation comes down to. -/
def Operation.events [Host] (session : Session) : Operation → List Event
  | .add code line =>
    match ((Session.add code line).run session).1 with
    | .ok forms => [.queued ⟨code, line⟩ forms]
    | .error fault => [.refused ⟨code, line⟩ fault]
  | .run => evaluations session.settings session.store session.queue
  | .pop =>
    match (Session.pop.run session).1 with
    | .ok value => [.popped value]
    | .error _ => [.missed]

/-- The events of a sequence of operations. -/
def journal [Host] (session : Session) : List Operation → List Event
  | [] => []
  | operation :: operations =>
    operation.events session ++ journal (operation.perform.run session).2 operations

/-- What a run of the queue comes to: evaluations up to the end of the queue, or up to the form that
failed, and then the console is at the passage of that form. -/
structure RunsTo [Host] (session : Session) (events : List Event)
    (answer : Except Fault Unit × Session) :
    Prop where
  happens : HappensAll session events answer.2
  finished : answer.1 = .ok () → answer.2.queue = []
  stopped : ∀ fault, answer.1 = .error fault → ∃ front entry failure,
    events = front ++ [.evaluated entry (.error failure)] ∧ fault = session.limit.amend failure ∧
      answer.2.console.passages.lookup session.path = some (some entry.passage)

/-- By induction on the queue. -/
theorem runsTo_runAll [Host] {waiting : List Queued} (queued : session.queue = waiting) :
    RunsTo session (evaluations session.settings session.store waiting)
      ((runAll waiting).run session) := by
  induction waiting generalizing session with
  | nil => exact ⟨.none, fun _ => queued, fun _ failed => nomatch failed⟩
  | cons entry rest previous =>
    have started : (runAll (entry :: rest)).run session =
        (runOne entry >>= fun _ => runAll rest).run { session with queue := rest } := rfl
    rcases ended : (entry.form.eval session.settings 0 rootScope).run { store := session.store }
      with ⟨fault | value, world⟩
    · obtain ⟨lines, one⟩ := run_runOne { session with queue := rest } entry ended
      have happens := Happens.evaluated queued ended one
      rw [started, run_bind, one]
      simp only [evaluations, ended]
      refine ⟨.next happens .none, fun success => (nomatch success), fun other failed => ?_⟩
      cases failed
      exact ⟨[], entry, fault, rfl, rfl, Console.lookup_assign _ _ _⟩
    · obtain ⟨lines, one⟩ := run_runOne { session with queue := rest } entry ended
      have happens := Happens.evaluated queued ended one
      rw [started, run_bind, one]
      simp only [evaluations, ended]
      -- The rest of the queue is run with the settings and in the store that the form has left.
      obtain ⟨later, finished, stopped⟩ : RunsTo
          ({ (Session.locatedAt { session with queue := rest } (some entry.passage)).evaluated
              world.store lines with results := session.results.push value }.locatedAt none) _ _ :=
        previous rfl
      refine ⟨.next happens later, finished, fun fault failed => ?_⟩
      obtain ⟨front, last, failure, split, amended, place⟩ := stopped fault failed
      exact ⟨.evaluated entry (.ok value) :: front, last, failure, congrArg (_ :: ·) split, amended,
        place⟩

/-- Every operation is a sequence of events. -/
theorem Operation.happensAll_events [Host] (session : Session) (operation : Operation) :
    HappensAll session (operation.events session) (operation.perform.run session).2 := by
  cases operation with
  | add code line =>
    simp only [events, perform, run_discard]
    rcases ran : (Session.add code line).run session with ⟨fault | forms, next⟩
    · exact .next (.refused ran) .none
    · exact .next (.queued ran) .none
  | run => exact (runsTo_runAll rfl).happens
  | pop =>
    simp only [events, perform, run_discard]
    rcases ran : Session.pop.run session with ⟨fault | value, next⟩
    · exact .next (.missed ran) .none
    · exact .next (.popped ran) .none

/-- So is a sequence of operations. -/
theorem happensAll_journal [Host] (session : Session) (operations : List Operation) :
    HappensAll session (session.journal operations) (session.after operations) := by
  induction operations generalizing session with
  | nil => exact .none
  | cons operation operations previous =>
    exact (operation.happensAll_events session).append (previous _)

/-! ### Opening a session -/

/-- The events of opening a session: the chunks of its file are read, or it is warned that there are
none. -/
def opening (session : Session) (content : Option (List Nat)) : List Event :=
  if session.path = interactivePath then []
  else
    match decodeFile session.path content with
    | .error _ => []
    | .ok text =>
      let chunks := Chunk.split (Text.lines text)
      if chunks.isEmpty then [.warned]
      else chunks.map fun chunk =>
        .queued ⟨chunk.code, chunk.line⟩ (Reading.ofText session.limit.number chunk.code).forms

theorem happensAll_addChunks [Host] {chunks : List Chunk}
    (done : (addChunks chunks).run session = (.ok (), next)) :
    HappensAll session (chunks.map fun chunk =>
      .queued ⟨chunk.code, chunk.line⟩ (Reading.ofText session.limit.number chunk.code).forms)
      next := by
  induction chunks generalizing session with
  | nil =>
    cases done
    exact .none
  | cons chunk chunks previous =>
    have added := run_add session chunk.code chunk.line
    rw [addChunks, run_bind, run_discard] at done
    cases flaw : (Reading.ofText session.limit.number chunk.code).flaw with
    | some found =>
      rw [flaw] at added
      rw [added] at done
      cases done
    | none =>
      rw [flaw] at added
      rw [added] at done
      exact .next (.queued added) (previous done)

/-- A session that could be opened went through the events of its opening. -/
theorem happensAll_opening [Host] {content : Option (List Nat)}
    (loaded : (load content).run session = (.ok (), next)) :
    HappensAll session (session.opening content) next := by
  unfold opening
  by_cases named : session.path = interactivePath
  · simp only [load, run_bind, run_get, if_pos named] at loaded
    split at loaded
    · cases loaded
      rw [if_pos named]
      exact .none
    · cases loaded
  · simp only [load, run_bind, run_get, if_neg named] at loaded
    rw [if_neg named]
    cases decoded : decodeFile session.path content with
    | error fault =>
      rw [decoded] at loaded
      cases loaded
    | ok text =>
      simp only [decoded] at loaded ⊢
      by_cases empty : (Chunk.split (Text.lines text)).isEmpty = true
      · simp only [empty, if_true, run_bind] at loaded ⊢
        rcases warned : (onConsole (Console.warn _)).run session with ⟨fault | _, middle⟩ <;>
          rw [warned] at loaded
        · cases loaded
        · rw [List.isEmpty_iff.mp empty] at loaded
          cases loaded
          exact .next (.warned warned) .none
      · rw [if_neg empty] at loaded ⊢
        exact happensAll_addChunks loaded

/-! ### The whole ledger -/

/-- **The ledger of a session balances.** A session is opened and then used in any way, where an
operation that fails leaves its session to the next. At every point of the events that this comes down
to, the forms that were evaluated so far, followed by those in the queue, are the forms of the texts
that were read, in order, and the results are the values of the forms that have one, without those that
were taken from the end. A text that cannot be read changes neither the queue nor the results nor any
scope. A run that does not fail empties the queue. One that fails ends with the form that failed, and
the console is at the passage with which that form was read. -/
theorem ledger_balances [Host] (console : Console) (path : String) (interactive : Bool)
    (limit : Limit)
    (traced : Bool) (content : Option (List Nat)) {opened : Session}
    (loaded : (load content).run (start console path interactive limit traced) = (.ok (), opened))
    (operations : List Operation) :
    let fresh := start console path interactive limit traced
    let events := fresh.opening content ++ opened.journal operations
    let reached := opened.after operations
    (∀ earlier later, events = earlier ++ later → ∃ point,
        HappensAll fresh earlier point ∧ HappensAll point later reached ∧
          spent earlier ++ point.queue = added earlier ∧ point.results.toList = kept earlier) ∧
      (∀ code line fault failed, (add code line).run reached = (.error fault, failed) →
        failed.queue = reached.queue ∧ failed.results = reached.results ∧
          failed.store = reached.store) ∧
      (∀ finished, run.run reached = (.ok (), finished) → finished.queue = []) ∧
      ∀ fault stopped, run.run reached = (.error fault, stopped) →
        ∃ front entry failure,
          Operation.run.events reached = front ++ [.evaluated entry (.error failure)] ∧
            fault = reached.limit.amend failure ∧
            added events = spent (events ++ front) ++ entry :: stopped.queue ∧
            stopped.console.passages.lookup reached.path = some (some entry.passage) := by
  intro fresh events reached
  have opens : HappensAll fresh (fresh.opening content) opened := happensAll_opening loaded
  have all : HappensAll fresh events reached := opens.append (happensAll_journal opened operations)
  have ran : RunsTo reached (Operation.run.events reached) (run.run reached) := runsTo_runAll rfl
  refine ⟨?_, ?_, fun finished done => ?_, fun fault stopped failed => ?_⟩
  · rintro earlier later split
    rw [split] at all
    obtain ⟨point, before, behind⟩ := all.split
    obtain ⟨moved, values⟩ := before.balances
    exact ⟨point, before, behind, moved, values⟩
  · intro code line fault failed refused
    rw [run_add] at refused
    cases flaw : (Reading.ofText reached.limit.number code).flaw <;> rw [flaw] at refused <;>
      cases refused
    exact ⟨rfl, rfl, rfl⟩
  · have empty := ran.finished
    rw [done] at empty
    exact empty rfl
  · have happens := ran.happens
    have stops := ran.stopped fault
    rw [failed] at happens stops
    obtain ⟨front, entry, failure, split, amended, place⟩ := stops rfl
    obtain ⟨moved, _⟩ := all.balances
    obtain ⟨movedLater, _⟩ := happens.balances
    refine ⟨front, entry, failure, split, amended, ?_, place⟩
    have nothing : added (Operation.run.events reached) = [] := added_evaluations _ _ _
    rw [nothing, List.append_nil, split, spent_append, List.append_assoc] at movedLater
    calc added events
        = spent events ++ reached.queue := moved.symm
      _ = spent events ++ (spent front ++ entry :: stopped.queue) := by
          rw [← movedLater]
          rfl
      _ = spent (events ++ front) ++ entry :: stopped.queue := by
          rw [spent_append events front, List.append_assoc]

/-- A file whose second form fails, so that a second run is needed for the third one; then a text that
cannot be read, one that can, and a result that is taken. -/
theorem ledger_balances_after_failures :
    let content := some ("1 (x)\n2\n".toList.map Char.toNat)
    let fresh := start {} "f" false .standard false
    let operations : List Operation := [.run, .add "3 )" 5, .add "4" 6, .run, .pop]
    ∃ opened, (load content).run fresh = (.ok (), opened) ∧
      let events := fresh.opening content ++ opened.journal operations
      let reached := opened.after operations
      spent events ++ reached.queue = added events ∧
        (spent events).map Queued.form =
          [.integer 1, .list [.identifier "x"], .integer 2, .integer 4] ∧
        reached.results.toList = kept events ∧ kept events = [.integer 1, .integer 2] := by
  intro content fresh operations
  have computed : let answer := (load content).run fresh
      let events := fresh.opening content ++ answer.2.journal operations
      answer.1 = .ok () ∧ (spent events).map Queued.form =
          [.integer 1, .list [.identifier "x"], .integer 2, .integer 4] ∧
        kept events = [.integer 1, .integer 2] := by
    decide +kernel
  rcases loaded : (load content).run fresh with ⟨result, opened⟩
  rw [loaded] at computed
  obtain ⟨rfl, forms, values⟩ := computed
  obtain ⟨balances, _⟩ :=
    ledger_balances {} "f" false .standard false content loaded operations
  obtain ⟨point, _, ended, moved, results⟩ := balances _ [] (List.append_nil _).symm
  obtain _ | _ := ended
  exact ⟨opened, rfl, moved, forms, results, values⟩

end Session

end Lisplet
