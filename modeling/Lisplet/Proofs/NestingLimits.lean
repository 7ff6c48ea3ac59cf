import Lisplet.Proofs.Applications
import Lisplet.Proofs.FirstFlaw
import Lisplet.Proofs.Ledger
import Lisplet.Terminal

/-!
Which limit holds where.

A text that is read below some limit is read below another one exactly if its lists fit there; else the
reading stops at a list beyond the limit, and with no other flaw. A session reads the texts that it is
given below its own limit. `fn` reads bodies below the default limit, whatever the limit of the session.

* `Nest.feedAll_below`, `Nest.feedOne_below`: tokens that are taken in below one limit, below another one.
* `Reading.flawless_iff_fits`, `Reading.tooDeep_iff`: all forms of a text.
* `Cursor.readForm_of_fits`, `Cursor.readForm_of_deeper`: a single form.
* `Session.Reaches`: the applications that a run of the queue comes to.
* `Session.Reaches.failed`: a native function that fails ends the run.
* `Session.limit_governs_texts_not_bodies`: which limit a session reads with.
-/

namespace Lisplet

/-! ### Tokens -/

namespace Nest

variable {ample : Int}

/-- One token. Only an opening parenthesis can be refused below another limit. -/
theorem Feeds.below {nest fed : Nest} {token : Token} (rule : Feeds ample nest token (.ok fed))
    (limit : Int) : Feeds limit nest token (.ok fed) ∨
      Feeds limit nest token (.error ⟨.tooDeep limit, token.start, token.stop⟩) := by
  cases rule with
  | atom denotes => exact .inl (.atom denotes)
  | closes shape closing => exact .inl (.closes shape closing)
  | opens shape _ =>
    by_cases room : (nest.depth : Int) + 1 ≤ limit
    · exact .inl (.opens shape room)
    · exact .inr (.tooDeep shape (by omega))

/-- A whole run. -/
theorem feedAll_below {nest fed : Nest} {tokens : List Token}
    (taken : nest.feedAll ample tokens = (fed, none)) (limit : Int) :
    nest.feedAll limit tokens = (fed, none) ∨
      ∃ stuck token, nest.feedAll limit tokens =
        (stuck, some (⟨.tooDeep limit, token.start, token.stop⟩, token)) := by
  induction tokens generalizing nest with
  | nil => exact .inl taken
  | cons token tokens previous =>
    obtain ⟨middle, rule, later⟩ := feedAll_cons_fed taken
    obtain same | refused := rule.below limit
    · rw [feedAll, same.feed_eq]
      exact previous later
    · refine .inr ⟨nest, token, ?_⟩
      rw [feedAll, refused.feed_eq]

/-- A run up to the first complete form. -/
theorem feedOne_below {nest : Nest} {tokens : List Token} {form : Expr} {token : Token}
    (completed : nest.feedOne ample tokens = .complete form token) (limit : Int) :
    nest.feedOne limit tokens = .complete form token ∨
      ∃ deep, nest.feedOne limit tokens =
        .flawed ⟨.tooDeep limit, deep.start, deep.stop⟩ deep := by
  induction tokens generalizing nest with
  | nil => cases completed
  | cons first tokens previous =>
    rw [feedOne] at completed
    cases step : nest.feed ample first with
    | error flaw => simp [step] at completed
    | ok fed =>
      rw [feedOne]
      obtain same | refused := (feed_eq_iff.mp step).below limit
      · rw [same.feed_eq]
        rw [step] at completed
        obtain ⟨items, outer⟩ := fed
        simp only at completed ⊢
        split at completed
        · exact .inl completed
        · exact previous completed
      · rw [refused.feed_eq]
        exact .inr ⟨first, rfl⟩

/-- The form that completes a nest without forms is its only one. -/
theorem Feeds.single {limit : Int} {nest : Nest} {token : Token} {form : Expr} {older : List Expr}
    (rule : Feeds limit nest token (.ok ⟨form :: older, []⟩)) (none : nest.forms = []) :
    older = [] := by
  obtain ⟨items, outer⟩ := nest
  generalize same : (⟨form :: older, []⟩ : Nest) = fed at rule
  cases rule with
  | atom denotes =>
    obtain ⟨made, rfl⟩ := mk.inj same
    cases made
    exact List.reverse_eq_nil_iff.mp none
  | opens shape room => cases same
  | closes shape closing =>
    subst same
    cases outer with
    | nil => cases closing
    | cons around outer =>
      obtain ⟨made, rfl⟩ := mk.inj (Option.some.inj closing)
      cases made
      exact List.reverse_eq_nil_iff.mp none

/-- A nest without forms takes in the tokens up to the one that completes its first form, which is then
all there is. -/
theorem feedAll_of_completed {limit : Int} {nest : Nest} {tokens : List Token} {form : Expr}
    {token : Token} (none : nest.forms = [])
    (completed : nest.feedOne limit tokens = .complete form token) :
    ∃ front back, tokens = front ++ token :: back ∧
      nest.feedAll limit (front ++ [token]) = (⟨[form], []⟩, Option.none) := by
  induction tokens generalizing nest with
  | nil => cases completed
  | cons first tokens previous =>
    cases step : nest.feed limit first with
    | error flaw => simp [feedOne, step] at completed
    | ok fed =>
      have rule := feed_eq_iff.mp step
      by_cases unfinished : fed.outer = [] → fed.items = []
      · rw [feedOne_of_unfinished rule unfinished] at completed
        have noneThen : fed.forms = [] := by
          by_cases opened : 0 < fed.depth
          · rw [forms_of_feeds rule opened, none]
          · have closed : fed.outer = [] := List.length_eq_zero_iff.mp (Nat.eq_zero_of_not_pos opened)
            rw [forms, closed]
            exact List.reverse_eq_nil_iff.mpr (unfinished closed)
        obtain ⟨front, back, rfl, made⟩ := previous noneThen completed
        refine ⟨first :: front, back, rfl, ?_⟩
        rw [List.cons_append, feedAll, step]
        exact made
      · obtain ⟨items, outer⟩ := fed
        simp only [Classical.not_imp] at unfinished
        obtain ⟨rfl, nonempty⟩ := unfinished
        obtain ⟨found, older, rfl⟩ := List.exists_cons_of_ne_nil nonempty
        rw [feedOne_of_complete rule] at completed
        cases completed
        refine ⟨[], tokens, rfl, ?_⟩
        rw [List.nil_append, feedAll, step, rule.single none]
        rfl

/-- What stands behind the first complete form does not matter. -/
theorem feedOne_append {limit : Int} {nest : Nest} {front : List Token} {form : Expr} {token : Token}
    (completed : nest.feedOne limit front = .complete form token) (back : List Token) :
    nest.feedOne limit (front ++ back) = .complete form token := by
  induction front generalizing nest with
  | nil => cases completed
  | cons first front previous =>
    rw [List.cons_append, feedOne]
    rw [feedOne] at completed
    cases step : nest.feed limit first with
    | error flaw => simp [step] at completed
    | ok fed =>
      rw [step] at completed
      simp only at completed ⊢
      split at completed
      · exact completed
      · exact previous completed

end Nest

/-! ### Texts -/

namespace Reading

variable {ample : Int} {code : String}

/-- A text that is read below some limit is read below another one if its lists fit there, and then as
the same forms. -/
theorem flawless_iff_fits (read : (ofText ample code).flaw = none) (limit : Int) :
    (ofText limit code).flaw = none ∧ (ofText limit code).forms = (ofText ample code).forms ↔
      ∀ form ∈ (ofText ample code).forms, form.FitsWithin limit := by
  obtain ⟨flawless, derives, _⟩ := derives_of_flawless read
  constructor
  · rintro ⟨readThen, same⟩ form member
    rw [← same] at member
    exact ((derives_of_flawless readThen).2.2 form member).2
  · exact flawless_of_derives flawless derives

/-- Otherwise a list is too deep. -/
theorem tooDeep_iff (read : (ofText ample code).flaw = none) (limit : Int) :
    (∃ start stop, (ofText limit code).flaw = some ⟨.tooDeep limit, start, stop⟩) ↔
      ∃ form ∈ (ofText ample code).forms, ¬ form.FitsWithin limit := by
  constructor
  · rintro ⟨start, stop, found⟩
    by_contra fits
    push Not at fits
    rw [((flawless_iff_fits read limit).mpr fits).1] at found
    cases found
  · rintro ⟨form, member, deeper⟩
    obtain ⟨flawless, items, taken⟩ := Cursor.flaw_readAll_eq_none read
    obtain same | ⟨stuck, token, stopped⟩ := Nest.feedAll_below taken limit
    · -- All tokens were taken in, so every form fits.
      have forms : (ofText ample code).forms = items.reverse := (Cursor.readAll_of_fed taken).1
      have sound : Nest.Sound limit ⟨items, []⟩ :=
        Nest.sound_of_feedAll Nest.sound_empty (scans_scan (Cursor.ofText code)).lawful same
      rw [forms, List.mem_reverse] at member
      exact absurd (sound.1 form member).2 deeper
    · exact ⟨_, _, (Cursor.readAll_of_stop stopped).2⟩

end Reading

namespace Cursor

variable {ample limit : Int} {cursor after : Cursor} {form : Expr}

theorem feedOne_of_readForm (read : cursor.readForm ample = (.ok form, after)) :
    ∃ token, Nest.feedOne ample {} cursor.scan.tokens = .complete form token ∧
      after = cursor.behind token := by
  unfold readForm at read
  cases run : Nest.feedOne ample {} cursor.scan.tokens with
  | complete found token =>
    simp only [run, Prod.mk.injEq, Except.ok.injEq] at read
    obtain ⟨rfl, rfl⟩ := read
    exact ⟨token, rfl, rfl⟩
  | flawed flaw token => simp [run] at read
  | unfinished => simp [run] at read

/-- A single form that is read below some limit is read below every other one that it fits. -/
theorem readForm_of_fits (read : cursor.readForm ample = (.ok form, after))
    (fits : form.FitsWithin limit) : cursor.readForm limit = (.ok form, after) := by
  obtain ⟨token, run, rfl⟩ := feedOne_of_readForm read
  obtain ⟨front, back, split, made⟩ := Nest.feedAll_of_completed rfl run
  have built : Nest.Built ([] ++ (front ++ [token])) ⟨[form], []⟩ := Nest.Built.empty.of_feedAll made
  have derives : Derives (front ++ [token]) [form] := built.derives
  have taken : Nest.feedAll limit {} (front ++ [token]) = (⟨[form], []⟩, none) :=
    derives.feedAll {} (hasRoom_nestingAll (List.forall_mem_singleton.mpr fits))
  obtain ⟨last, isLast, completed⟩ := Nest.feedOne_of_feedAll (fun _ => rfl) taken
  have same : last = token := by simpa using isLast.symm
  subst same
  have whole := Nest.feedOne_append completed back
  rw [List.append_assoc, List.singleton_append, ← split] at whole
  rw [readForm, whole]

/-- Below all others one of its lists is too deep. -/
theorem readForm_of_deeper (read : cursor.readForm ample = (.ok form, after))
    (deeper : ¬ form.FitsWithin limit) :
    ∃ start stop, (cursor.readForm limit).1 = .error ⟨.tooDeep limit, start, stop⟩ := by
  obtain ⟨token, run, rfl⟩ := feedOne_of_readForm read
  obtain same | ⟨deep, stopped⟩ := Nest.feedOne_below run limit
  · have readThen : cursor.readForm limit = (.ok form, cursor.behind token) := by
      rw [readForm, same]
    exact absurd (legible_of_readForm readThen).2 deeper
  · refine ⟨deep.start, deep.stop, ?_⟩
    rw [readForm, stopped]

end Cursor

/-! ### Bodies -/

/-- The fault says that a text has a list beyond the limit. -/
def Fault.SaysTooDeep (limit : Int) (source : String) (fault : Fault) : Prop :=
  ∃ start stop, fault = .error (Flaw.toError ⟨.tooDeep limit, start, stop⟩ source)

namespace Builtin

variable {room scope : Nat} {params body : String} {world : World}

theorem call_function_of_flaw {flaw : Flaw}
    (read : ((Cursor.ofText body).readForm defaultLimit).1 = .error flaw) :
    (Builtin.function.call room scope [.string params, .string body]).run world =
      (.error (.error (flaw.toError body)), world) := by
  simp only [call, makeClosure, expectString, pure_bind, readBody, read]
  rfl

/-- `fn` finds a list too deep exactly if the form of the body is deeper than the default limit. -/
theorem call_function_tooDeep_iff {ample : Int} {form : Expr} {after : Cursor}
    (read : (Cursor.ofText body).readForm ample = (.ok form, after)) :
    (∃ fault, ((Builtin.function.call room scope [.string params, .string body]).run world).1 =
        .error fault ∧ fault.SaysTooDeep defaultLimit body) ↔
      ¬ form.FitsWithin defaultLimit := by
  constructor
  · rintro ⟨fault, failed, start, stop, rfl⟩ fits
    have readThen := Cursor.readForm_of_fits read fits
    have rule := Builtin.function.calls room scope [.string params, .string body]
    generalize Builtin.function.call room scope [.string params, .string body] = action at rule failed
    cases rule with
    | wrongCount arity wrong => cases failed
    | wrongType expected given => cases failed
    | flawedBody flawed =>
      rw [readThen] at flawed
      cases flawed
    | closure => cases failed
  · intro deeper
    obtain ⟨start, stop, flawed⟩ := Cursor.readForm_of_deeper read deeper
    refine ⟨_, ?_, start, stop, rfl⟩
    rw [call_function_of_flaw flawed]

end Builtin

/-! ### Sessions -/

namespace Session

open Lisplet.Action

variable {session next : Session}

/-- The applications that a run comes to: those of the forms in the queue, up to the first one that
fails. -/
inductive Reaches [Host] (settings : Settings) : Store → List Queued → Expr.Application → Prop
  | here {store : Store} {entry : Queued} {rest : List Queued} {application : Expr.Application}
      (comes : entry.form.ComesTo settings 0 rootScope { store } application) :
      Reaches settings store (entry :: rest) application
  | later {store : Store} {entry : Queued} {rest : List Queued} {application : Expr.Application}
      {value : Expr} {world : World}
      (ended : (entry.form.eval settings 0 rootScope).run { store } = (.ok value, world))
      (reaches : Reaches settings world.store rest application) :
      Reaches settings store (entry :: rest) application

/-- A native function that fails ends the run that comes to it. -/
theorem Reaches.failed [Host] {waiting : List Queued} {application : Expr.Application}
    {builtin : Builtin}
    {fault : Fault} (reaches : Reaches session.settings session.store waiting application)
    (native : application.function = .native builtin)
    (stopped : ((builtin.call application.room application.scope application.args).run
      application.world).1 = .error fault) :
    ((runAll waiting).run session).1 = .error (session.limit.amend fault) := by
  induction waiting generalizing session with
  | nil => cases reaches
  | cons entry rest previous =>
    have started : (runAll (entry :: rest)).run session =
        (runOne entry >>= fun _ => runAll rest).run { session with queue := rest } := rfl
    cases reaches with
    | here comes =>
      have ended := comes.failed native (Prod.ext stopped rfl)
      obtain ⟨lines, one⟩ := run_runOne { session with queue := rest } entry ended
      rw [started, run_bind, one]
    | @later _ _ _ _ value world ended later =>
      obtain ⟨lines, one⟩ := run_runOne { session with queue := rest } entry ended
      rw [started, run_bind, one]
      refine previous ?_
      exact later

theorem HappensAll.limit_eq [Host] {events : List Event} (all : HappensAll session events next) :
    next.limit = session.limit := by
  induction all with
  | none => rfl
  | next first _ previous => exact previous.trans first.balances.2.2

theorem limit_after [Host] (session : Session) (operations : List Operation) :
    (session.after operations).limit = session.limit :=
  (happensAll_journal session operations).limit_eq

/-- The answer to a text that is read below some limit. -/
theorem add_answers {levels : Int} (limit : session.limit = .levels levels) {ample : Int}
    {code : String} (read : (Reading.ofText ample code).flaw = none) (line : Int) :
    ((∃ fault, ((add code line).run session).1 = .error fault ∧ fault.SaysTooDeep levels code) ↔
      ∃ form ∈ (Reading.ofText ample code).forms, ¬ form.FitsWithin levels) ∧
    (((add code line).run session).1 = .ok (Reading.ofText ample code).forms ↔
      ∀ form ∈ (Reading.ofText ample code).forms, form.FitsWithin levels) := by
  by_cases fits : ∀ form ∈ (Reading.ofText ample code).forms, form.FitsWithin levels
  · obtain ⟨flawless, same⟩ := (Reading.flawless_iff_fits read levels).mpr fits
    have answer : ((add code line).run session).1 = .ok (Reading.ofText ample code).forms := by
      rw [run_add, limit]
      simp only [Limit.number, flawless, same]
    rw [answer]
    refine ⟨⟨?_, ?_⟩, fun _ => fits, fun _ => rfl⟩
    · rintro ⟨_, failed, _⟩
      cases failed
    · rintro ⟨form, member, deeper⟩
      exact absurd (fits form member) deeper
  · have deeper : ∃ form ∈ (Reading.ofText ample code).forms, ¬ form.FitsWithin levels := by
      push Not at fits
      exact fits
    obtain ⟨start, stop, found⟩ := (Reading.tooDeep_iff read levels).mpr deeper
    have answer : ((add code line).run session).1 =
        .error (.error (Flaw.toError ⟨.tooDeep levels, start, stop⟩ code)) := by
      rw [run_add, limit]
      simp only [Limit.number, found, Limit.amend_levels]
    rw [answer]
    refine ⟨⟨fun _ => deeper, fun _ => ⟨_, rfl, start, stop, rfl⟩⟩, ?_, fun all => absurd all fits⟩
    intro success
    cases success

/-- **The limit of a session governs the texts that it is given, and the default limit the bodies of
functions.** Take any session that any operations have led to. A text that is read below some limit is
refused because of a list that is too deep exactly if one of its lists is nested deeper than the limit of
the session, and else its forms are queued. A body that a run comes to give to `fn` is refused in this way
exactly if it is nested deeper than the default limit, and that ends the run. -/
theorem limit_governs_texts_not_bodies [Host] (console : Console) (path : String)
    (interactive : Bool)
    (levels : Int) (traced : Bool) (operations : List Operation) :
    let session := (start console path interactive (.levels levels) traced).after operations
    (∀ code line ample, (Reading.ofText ample code).flaw = none →
      let forms := (Reading.ofText ample code).forms
      let answer := ((add code line).run session).1
      ((∃ fault, answer = .error fault ∧ fault.SaysTooDeep levels code) ↔
        ∃ form ∈ forms, ¬ form.FitsWithin levels) ∧
      (answer = .ok forms ↔ ∀ form ∈ forms, form.FitsWithin levels)) ∧
    ∀ application params body ample form after,
      Reaches session.settings session.store session.queue application →
      application.function = .native .function →
      application.args = [.string params, .string body] →
      (Cursor.ofText body).readForm ample = (.ok form, after) →
      let answer :=
        ((Builtin.function.call application.room application.scope application.args).run
          application.world).1
      ((∃ fault, answer = .error fault ∧ fault.SaysTooDeep defaultLimit body) ↔
        ¬ form.FitsWithin defaultLimit) ∧
      ∀ fault, answer = .error fault → (run.run session).1 = .error fault := by
  intro session
  have limit : session.limit = .levels levels := limit_after _ operations
  refine ⟨fun code line ample read => add_answers limit read line, ?_⟩
  intro application params body ample form after reaches native args read answer
  constructor
  · show (∃ fault, ((Builtin.function.call application.room application.scope
      application.args).run _).1 = _ ∧ _) ↔ _
    rw [args]
    exact Builtin.call_function_tooDeep_iff read
  · intro fault stopped
    have failed := reaches.failed native stopped
    rw [limit] at failed
    exact failed

/-- A run with a limit of two levels comes to a function whose body has three. -/
theorem reaches_body_of_three_levels :
    let session :=
      (start {} interactivePath true (.levels 2) false).after [.add "(fn \"x\" \"(((x)))\")" 1]
    Reaches session.settings session.store session.queue
      ⟨332, rootScope, .native .function, [.string "x", .string "(((x)))"],
        { store := .initial }⟩ := by
  intro session
  have queue : session.queue = [⟨⟨"(fn \"x\" \"(((x)))\")", 1⟩,
      .list [.identifier "fn", .string "x", .string "(((x)))"]⟩] := by decide +kernel
  have store : session.store = .initial := by decide +kernel
  have settings : session.settings = { limit := 2 } := by decide +kernel
  rw [queue, store, settings]
  have bound : Store.initial.lookup? rootScope "fn" = some (.native .function) := by decide +kernel
  have headed : (Expr.evalWithin { limit := 2 } 332 (0 + 1) rootScope (.identifier "fn")).run
      { store := .initial } = (.ok (.native .function), { store := .initial }) := by
    rw [Expr.evalWithin_below (by decide), Expr.evalForm, run_lookup, bound]
    rfl
  exact .here (.call ⟨headed, rfl, rfl⟩)

/-- The text of three levels is refused, but the same text is read as a body. -/
theorem limit_governs_texts_not_bodies_three_levels :
    let session :=
      (start {} interactivePath true (.levels 2) false).after [.add "(fn \"x\" \"(((x)))\")" 1]
    (∃ fault, ((add "(((x)))" 2).run session).1 = .error fault ∧
      fault.SaysTooDeep 2 "(((x)))") ∧
    ¬ ∃ fault, ((Builtin.function.call 332 rootScope [.string "x", .string "(((x)))"]).run
      { store := .initial }).1 = .error fault ∧ fault.SaysTooDeep 100 "(((x)))" := by
  intro session
  have nesting : Expr.nesting (.list [.list [.list [.identifier "x"]]]) = 3 := rfl
  obtain ⟨texts, bodies⟩ := limit_governs_texts_not_bodies {} interactivePath true 2 false
    [.add "(fn \"x\" \"(((x)))\")" 1]
  constructor
  · have read : (Reading.ofText 3 "(((x)))").flaw = none ∧
        (Reading.ofText 3 "(((x)))").forms = [.list [.list [.list [.identifier "x"]]]] := by
      decide +kernel
    refine (texts "(((x)))" 2 3 read.1).1.mpr ?_
    rw [read.2]
    refine ⟨_, List.mem_singleton_self _, ?_⟩
    unfold Expr.FitsWithin HasRoom
    omega
  · have read : (Cursor.ofText "(((x)))").readForm 3 =
        (.ok (.list [.list [.list [.identifier "x"]]]), ⟨7, []⟩) := by
      decide +kernel
    have refused := (bodies _ "x" "(((x)))" 3 _ _ reaches_body_of_three_levels rfl rfl read).1
    refine fun tooDeep => refused.mp tooDeep ?_
    unfold Expr.FitsWithin HasRoom defaultLimit
    omega

/-- A body that is nested deeper than the limit of its session is read. -/
theorem body_beyond_session_limit_is_read :
    let body := "(((x)))"
    let session :=
      (start {} interactivePath true (.levels 2) false).after [.add "(fn \"x\" \"(((x)))\")" 1]
    ∃ form after application,
      (Cursor.ofText body).readForm 3 = (.ok form, after) ∧ after.atEnd = true ∧
      ¬ form.FitsWithin 2 ∧
      Reaches session.settings session.store session.queue application ∧
      application.function = .native .function ∧
      application.args = [.string "x", .string body] ∧
      (run.run session).1 = .ok () ∧
      (run.run session).2.results = #[.closure ["x"] form rootScope Expr.anonymous] := by
  intro body session
  refine ⟨.list [.list [.list [.identifier "x"]]], ⟨7, []⟩, _, by decide +kernel, by decide +kernel,
    ?_, reaches_body_of_three_levels, rfl, rfl, by decide +kernel, by decide +kernel⟩
  have nesting : Expr.nesting (.list [.list [.list [.identifier "x"]]]) = 3 := rfl
  unfold Expr.FitsWithin HasRoom
  omega

end Session

end Lisplet
