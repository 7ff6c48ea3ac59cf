import Lisplet.Proofs.Conversation

/-!
The states of a shell between two lines.

A line is one of three things to a shell: no source text at all, source text that leaves a form open
and is kept, or source text that completes code, which is run. What is kept and counted follows from
that alone, whatever comes of the code. What is left of the session follows from what the console does
with the fault of the code, as long as no fault gets out.

* `Shell.Answers`: what an answer to a line can be.
* `Shell.taken`: the source text that a shell takes in.
* `Shell.Collects`: what is pending is the end of the source text that was taken in.
* `Shell.Prompts`: the prompt belongs to what is pending.
* `Session.Standing`: the session of a shell that stands at a passage, or at none.
* `Shell.state_between_lines`: the state of a shell from which no fault got out.
-/

namespace Lisplet

/-- An operation made of two that gives a value: both of them do. -/
theorem Action.run_bind_eq_ok {σ α β : Type} {action : ExceptT Fault (StateM σ) α}
    {next : α → ExceptT Fault (StateM σ) β} {state after : σ} {value : β}
    (done : (action >>= next).run state = (.ok value, after)) :
    ∃ first middle, action.run state = (.ok first, middle) ∧
      (next first).run middle = (.ok value, after) := by
  rw [run_bind] at done
  rcases ended : action.run state with ⟨fault | first, middle⟩ <;> rw [ended] at done
  · cases done
  · exact ⟨first, middle, rfl, done⟩

/-! ### Single answers -/

namespace Shell

open Lisplet.Action

variable {shell : Shell} {line : String}

/-- Exactly the blank lines ask for nothing. -/
theorem parse_eq_nothing_iff (line : String) : parse line = .nothing ↔ Text.strip line = "" := by
  rw [← String.toList_eq_nil_iff, parse]
  split
  · simp [*]
  · simp [*]
  · rename_i notEmpty _
    refine ⟨fun nothing => ?_, fun empty => absurd empty notEmpty⟩
    dsimp only at nothing
    split_ifs at nothing

/-- Source text is a line without the blanks around it. -/
theorem strip_of_parse {text : String} (source : parse line = .source text) :
    Text.strip line = text := by
  rw [parse] at source
  split at source
  · cases source
  · cases source
  · dsimp only at source
    split_ifs at source
    exact Command.source.inj source

/-- What is taken in is the line without the blanks around it. -/
theorem strip_of_sourceOf? {text : String} (source : shell.sourceOf? line = some text) :
    Text.strip line = text := by
  rw [sourceOf?] at source
  cases asked : parse line with
  | nothing =>
    simp only [asked, Option.ite_none_left_eq_some, Option.some.injEq] at source
    rw [(parse_eq_nothing_iff line).mp asked, source.2]
  | source other =>
    simp only [asked, Option.some.injEq] at source
    rw [strip_of_parse asked, source]
  | help => simp [asked] at source
  | quit => simp [asked] at source
  | endOfInput => simp [asked] at source

/-- The code that a line of source text makes up with what is pending. -/
def joined (shell : Shell) (line : String) : String :=
  Chunk.joinLine shell.pending (Text.strip line)

/-- What an answer to a line can be, and the shell after it. -/
inductive Answers [Host] (shell : Shell) (line : String) : Except Fault Reply × Shell → Prop
  /-- The line is blank and nothing is pending. -/
  | idle (blank : parse line = .nothing) (other : shell.sourceOf? line = none) :
    Answers shell line (.ok .idle, shell)
  /-- The line is a request. -/
  | request {reply : Reply} {lines : List String}
    (asked : (parse line).remark? = some (reply, lines)) (other : shell.sourceOf? line = none) :
    Answers shell line (.ok reply, { shell with session := shell.session.telling lines })
  /-- The line leaves a form open. -/
  | kept (source : shell.sourceOf? line = some (Text.strip line))
    (incomplete : isIncomplete (shell.joined line) = true) :
    Answers shell line (.ok .handled,
      { shell.countLine with pending := shell.joined line, prompt := secondaryPrompt })
  /-- The line completes code. -/
  | ran (source : shell.sourceOf? line = some (Text.strip line))
    (complete : isIncomplete (shell.joined line) = false)
    {result : Except Fault Unit} {session : Session}
    (ended : (Session.guarded (runChunk (shell.joined line) shell.countLine.firstLine)).run
      shell.session = (result, session)) :
    Answers shell line
      (result.map fun _ => .handled,
        { shell.countLine with pending := "", prompt := primaryPrompt, session })

/-- Every line gets one of these answers. -/
theorem answers_respond [Host] (shell : Shell) (line : String) :
    Answers shell line ((respond line).run shell) := by
  cases source : shell.sourceOf? line with
  | none =>
    obtain ⟨⟨reply, lines⟩, asked⟩ | ⟨blank, empty⟩ := remark_or_blank source
    · rw [run_respond_of_request asked]
      exact .request asked source
    · rw [run_respond_of_idle blank empty]
      exact .idle blank source
  | some text =>
    obtain rfl := strip_of_sourceOf? source
    rw [run_respond_of_source source]
    cases complete : isIncomplete (shell.joined line) with
    | true =>
      rw [run_enter_of_incomplete complete]
      exact .kept source complete
    | false =>
      rw [run_enter_of_complete complete]
      exact .ran source complete rfl

/-- No line gets any other answer. -/
theorem Answers.run_eq [Host] {answer : Except Fault Reply × Shell}
    (answers : Answers shell line answer) :
    (respond line).run shell = answer := by
  cases answers with
  | idle blank other =>
    obtain ⟨remark, asked⟩ | ⟨_, empty⟩ := remark_or_blank other
    · simp [blank, Command.remark?] at asked
    · exact run_respond_of_idle blank empty
  | request asked other => exact run_respond_of_request asked
  | kept source incomplete =>
    rw [run_respond_of_source source, run_enter_of_incomplete incomplete]
    rfl
  | ran source complete ended =>
    rw [joined] at ended
    rw [run_respond_of_source source, run_enter_of_complete complete, ended]

/-! ### The source text that is pending -/

/-- The source text that a shell takes in along some lines: those of them that are source text, each
without the blanks around it. -/
def taken [Host] (shell : Shell) : List String → List String
  | [] => []
  | line :: lines =>
    let rest := taken ((respond line).run shell).2 lines
    if (shell.sourceOf? line).isSome then Text.strip line :: rest else rest

/-- A shell that has taken in some source text has counted it, and what is pending is the end of it,
from the line on at which the pending form began. -/
def Collects (shell : Shell) (texts : List String) : Prop :=
  shell.lineCount = texts.length ∧
    ∃ done group, texts = done ++ group ∧ Chunk.Pending group ∧
      shell.pending = Chunk.joinLines group ∧ (group ≠ [] → shell.firstLine = done.length + 1)

/-- A shell at its start has taken in nothing. -/
theorem collects_nil (session : Session) : Collects { session } [] :=
  ⟨rfl, [], [], rfl, Chunk.pending_nil, rfl, fun impossible => absurd rfl impossible⟩

/-- What is pending goes on. -/
theorem Collects.incomplete {texts : List String} (collects : shell.Collects texts)
    (pending : shell.pending ≠ "") : isIncomplete shell.pending = true := by
  obtain ⟨_, _, group, _, waiting, same, _⟩ := collects
  rw [same] at pending ⊢
  exact waiting.incomplete fun none => pending (String.isEmpty_iff.mp (waiting.isEmpty_iff.mpr none))

/-- The number of the first line of the form that a further line belongs to. -/
theorem firstLine_countLine {done group : List String} (waiting : Chunk.Pending group)
    (same : shell.pending = Chunk.joinLines group)
    (first : group ≠ [] → shell.firstLine = done.length + 1)
    (counted : shell.lineCount = (done ++ group).length) :
    shell.countLine.firstLine = done.length + 1 := by
  by_cases none : group = []
  · subst none
    rw [List.append_nil] at counted
    simp [countLine, same, Chunk.joinLines, counted]
  · have pending : shell.pending.isEmpty = false := by
      rw [same, Bool.eq_false_iff]
      exact fun empty => none (waiting.isEmpty_iff.mp empty)
    simp [countLine, pending, first none]

/-- What an answer makes of the source text that is pending: a line more is kept, or nothing is. -/
theorem Collects.respond [Host] {texts : List String} (collects : shell.Collects texts)
    (line : String) :
    ((respond line).run shell).2.Collects
      (if (shell.sourceOf? line).isSome then texts ++ [Text.strip line] else texts) := by
  obtain ⟨counted, done, group, rfl, waiting, same, first⟩ := collects
  have number := firstLine_countLine waiting same first counted
  have length : shell.countLine.lineCount = (done ++ group ++ [Text.strip line]).length := by
    rw [List.length_append, ← counted]
    rfl
  have answers := answers_respond shell line
  generalize (Shell.respond line).run shell = answer at answers ⊢
  cases answers with
  | idle _ other =>
    rw [other]
    exact ⟨counted, done, group, rfl, waiting, same, first⟩
  | request _ other =>
    rw [other]
    exact ⟨counted, done, group, rfl, waiting, same, first⟩
  | kept source incomplete =>
    -- The pending group is longer by the line.
    have code : shell.joined line = Chunk.joinLines (group ++ [Text.strip line]) := by
      rw [joined, same, waiting.joinLine_eq]
    rw [code] at incomplete ⊢
    rw [source]
    exact ⟨length, done, group ++ [Text.strip line], List.append_assoc _ _ _,
      waiting.append incomplete, rfl, fun _ => number⟩
  | ran source complete ended =>
    -- The group is done, whatever came of its code.
    rw [source]
    exact ⟨length, done ++ group ++ [Text.strip line], [], (List.append_nil _).symm,
      Chunk.pending_nil, rfl, fun impossible => absurd rfl impossible⟩

/-- By induction on the lines. -/
theorem Collects.after [Host] {texts : List String} (collects : shell.Collects texts)
    (lines : List String) : (shell.after lines).Collects (texts ++ shell.taken lines) := by
  induction lines generalizing shell texts with
  | nil => rwa [Shell.after, taken, List.append_nil]
  | cons line lines previous =>
    have next := previous (collects.respond line)
    rw [Shell.after, taken]
    split_ifs at next ⊢
    · rwa [List.append_assoc, List.singleton_append] at next
    · exact next

/-- The shell asks for the rest of a form exactly if something is pending. -/
def Prompts (shell : Shell) : Prop :=
  shell.prompt = secondaryPrompt ↔ shell.pending ≠ ""

/-- Every way out of an answer leaves the prompt that belongs to what is pending, also if a fault gets
out. -/
theorem Prompts.respond [Host] (prompts : shell.Prompts) (line : String) :
    ((respond line).run shell).2.Prompts := by
  have answers := answers_respond shell line
  generalize (Shell.respond line).run shell = answer at answers ⊢
  cases answers with
  | idle _ _ => exact prompts
  | request _ _ => exact prompts
  | kept _ incomplete =>
    refine ⟨fun _ nothing => ?_, fun _ => rfl⟩
    change shell.joined line = "" at nothing
    rw [nothing, Chunk.isIncomplete_empty] at incomplete
    cases incomplete
  | ran _ _ _ =>
    have different : primaryPrompt ≠ secondaryPrompt := by decide
    exact ⟨fun same => absurd same different, fun impossible => absurd rfl impossible⟩

/-- By induction on the lines. -/
theorem Prompts.after [Host] (prompts : shell.Prompts) (lines : List String) :
    (shell.after lines).Prompts := by
  induction lines generalizing shell with
  | nil => exact prompts
  | cons line lines previous => exact previous (prompts.respond line)

end Shell

/-! ### Faults that the console keeps -/

namespace Console

open Lisplet.Action

variable {console after : Console}

/-- An announcement prints, whether or not it can be finished. -/
theorem run_announce_lines [Host] (error : Error) (style : Style) (headline : String)
    (console : Console) :
    ∃ lines, ((announce error style headline).run console).2 = console.writeLines lines := by
  cases told : error.styled console.colored with
  | error fault => exact ⟨[], by rw [run_announce_stuck told, writeLines_nil]⟩
  | ok message =>
    obtain ⟨more, printed⟩ := run_announce_told told style headline
    exact ⟨_, printed⟩

/-- A report prints some lines. Either the program goes on, and then no passage is left, or the report
fails, and then nothing else changes. -/
theorem run_report_cases [Host] (error : Error) (console : Console) :
    ∃ lines, (report error).run console = (.ok (), (console.writeLines lines).forgetPassages) ∨
      ∃ fault, (report error).run console = (.error fault, console.writeLines lines) := by
  simp only [report, run_bind, run_get]
  generalize (if error.internal then Style.error.paint console.colored "[internal] " else "") ++
    Style.error.paint console.colored "error: " = heading
  obtain ⟨lines, printed⟩ := run_announce_lines error Style.error heading console
  refine ⟨lines, ?_⟩
  rcases ended : (announce error Style.error heading).run console with ⟨fault | _, next⟩
  · rw [ended] at printed
    subst printed
    exact .inr ⟨fault, rfl⟩
  · rw [ended] at printed
    subst printed
    by_cases fatal : (console.writeLines lines).fatal = true
    · exact .inr ⟨.exit (some 1), by simp only [fatal, if_true]; rfl⟩
    · exact .inl (by simp only [fatal]; rfl)

/-- A report after which the program goes on leaves no passage. -/
theorem passages_of_report [Host] {error : Error}
    (done : (report error).run console = (.ok (), after)) :
    ∃ lines, after = (console.writeLines lines).forgetPassages := by
  obtain ⟨lines, ended | ⟨fault, ended⟩⟩ := run_report_cases error console
  · rw [ended] at done
    exact ⟨lines, (Prod.mk.inj done).2.symm⟩
  · rw [ended] at done
    cases done

/-- A fault that the console keeps is no breakdown, and leaves no passage. -/
theorem passages_of_settle [Host] {fault : Fault}
    (done : (settle fault).run console = (.ok (), after)) :
    fault.goesOn = false ∧ ∃ lines, after = (console.writeLines lines).forgetPassages := by
  cases fault with
  | error error => exact ⟨rfl, passages_of_report done⟩
  | interrupt => exact ⟨rfl, passages_of_report done⟩
  | exhausted => exact ⟨rfl, passages_of_report done⟩
  | exit code => cases done
  | breakdown breakdown =>
    rw [settle] at done
    cases said : breakdown.message with
    | error inner =>
      rw [said] at done
      cases done
    | ok message =>
      rw [said] at done
      obtain ⟨_, _, _, thrown⟩ := run_bind_eq_ok done
      cases thrown

end Console

/-! ### Chunks from which no fault gets out -/

namespace Session

open Lisplet.Action

variable {session after : Session} {limit : Limit} {traced colored : Bool}

/-- The session of a shell that stands at a passage, or at none, and whose results were shown. -/
structure Standing (limit : Limit) (traced colored : Bool) (passage : Option Passage)
    (session : Session) : Prop where
  mild : session.console.fatal = false
  here : session.console.passages = [(session.path, passage)]
  shown : session.results = #[]
  path : session.path = interactivePath
  limit : session.limit = limit
  traced : session.traced = traced
  colored : session.console.colored = colored

variable {passage : Option Passage}

/-- A session may move to another passage, print lines and change its store and its queue. -/
theorem Standing.moved (standing : session.Standing limit traced colored passage)
    (place : Option Passage) (lines : List String) (store : Store) (queue : List Queued)
    (received : Array Passage) :
    Standing limit traced colored place
      ({ session.telling lines with store, queue, results := #[], received }.placed place) where
  mild := standing.mild
  here := rfl
  shown := rfl
  path := standing.path
  limit := standing.limit
  traced := standing.traced
  colored := standing.colored

/-- A session that could not read a chunk stands at it. -/
theorem Standing.stopped (standing : session.Standing limit traced colored passage)
    (place : Passage) :
    Standing limit traced colored (some place)
      ({ session.receiving place with queue := [], results := #[] }.placed (some place)) :=
  ⟨standing.mild, rfl, rfl, standing.path, standing.limit, standing.traced, standing.colored⟩

/-- What running a chunk leaves: a breakdown, or a session whose results were shown, and which stands at
no passage if nothing failed. -/
theorem Standing.runChunk [Host] (standing : session.Standing limit traced colored passage)
    (code : String)
    (line : Nat) {result : Except Fault Unit}
    (ended : (Shell.runChunk code line).run session = (result, after)) :
    (∃ fault, result = .error fault ∧ fault.goesOn = true) ∨
      ∃ place, after.Standing limit traced colored place ∧ (result = .ok () → place = none) := by
  have alone : session.Alone := ⟨passage, standing.here⟩
  cases flaw : (Reading.ofText session.limit.number code).flaw with
  | some found =>
    rw [run_runChunk_of_flaw alone line flaw] at ended
    cases ended
    exact .inr ⟨some ⟨code, line⟩, standing.stopped ⟨code, line⟩, fun ok => nomatch ok⟩
  | none =>
    obtain ⟨lines, _, shows, stuck⟩ := run_runChunk alone line flaw
    let plain := interpret session.settings session.store
      (Reading.ofText session.limit.number code).forms
    cases printing : Expr.printAll plain.values with
    | error number =>
      -- The results stay, but this fault gets out whatever the console does with it.
      obtain ⟨texts, failed⟩ := stuck number printing
      rw [failed] at ended
      cases ended
      exact .inl ⟨_, rfl, rfl⟩
    | ok texts =>
      rw [shows texts printing] at ended
      cases ended
      refine .inr ⟨_, standing.moved _ _ plain.store _ _, fun ok => ?_⟩
      -- The session stands at the form behind the last value, and here there is none.
      have unfailing : plain.failure = none := by
        cases failed : plain.failure with
        | none => rfl
        | some fault => simp [Interpretation.outcome, plain, failed] at ok
      have all := (length_interpret _ _ _).1 unfailing
      simp [entered, placed, all]

/-- Once the console has settled the fault of a chunk, the session stands at no passage. -/
theorem Standing.guarded [Host] (standing : session.Standing limit traced colored passage)
    {code : String}
    {line : Nat} (done : (guarded (Shell.runChunk code line)).run session = (.ok (), after)) :
    after.Standing limit traced colored none := by
  rw [run_guarded] at done
  rcases ended : (Shell.runChunk code line).run session with ⟨fault | _, middle⟩ <;>
    rw [ended] at done
  · dsimp only at done
    rw [run_onConsole] at done
    rcases settled : (Console.settle fault).run middle.console with ⟨result, console⟩
    rw [settled] at done
    cases done
    obtain ⟨kept, lines, rfl⟩ := Console.passages_of_settle settled
    obtain ⟨_, same, goesOn⟩ | ⟨place, stands, _⟩ := standing.runChunk code line ended
    · cases same
      rw [kept] at goesOn
      cases goesOn
    · exact ⟨stands.mild, by simp [Console.forgetPassages, stands.here], stands.shown, stands.path,
        stands.limit, stands.traced, stands.colored⟩
  · cases done
    obtain ⟨_, same, _⟩ | ⟨_, stands, none⟩ := standing.runChunk code line ended
    · cases same
    · rwa [none rfl] at stands

end Session

/-! ### Lines that let no fault out -/

namespace Shell

open Lisplet.Action

variable {shell reached : Shell} {limit : Limit} {traced colored : Bool}

/-- An answer leaves the session at no passage. -/
theorem standing_respond [Host] (standing : shell.session.Standing limit traced colored none)
    {line : String} {reply : Reply} (answered : (respond line).run shell = (.ok reply, reached)) :
    reached.session.Standing limit traced colored none := by
  have answers := answers_respond shell line
  rw [answered] at answers
  generalize same : (Except.ok reply, reached) = answer at answers
  cases answers with
  | idle _ _ =>
    cases same
    exact standing
  | request _ _ =>
    cases same
    exact ⟨standing.mild, standing.here, standing.shown, standing.path, standing.limit,
      standing.traced, standing.colored⟩
  | kept source incomplete =>
    cases same
    exact standing
  | @ran _ _ result session ended =>
    cases result with
    | error fault => cases same
    | ok _ =>
      cases same
      exact standing.guarded ended

/-- Lines that are all answered: the first one is, and so are the others after it. -/
theorem run_mapM_cons_eq_ok [Host] {line : String} {lines : List String} {replies : List Reply}
    (answered : ((line :: lines).mapM respond).run shell = (.ok replies, reached)) :
    ∃ reply next others, (respond line).run shell = (.ok reply, next) ∧
      (lines.mapM respond).run next = (.ok others, reached) := by
  rw [List.mapM_cons] at answered
  obtain ⟨reply, next, first, later⟩ := run_bind_eq_ok answered
  obtain ⟨others, last, rest, ended⟩ := run_bind_eq_ok later
  cases ended
  exact ⟨reply, next, others, first, rest⟩

/-- Lines that are all answered lead to the shell after them, and its session stands at no passage. -/
theorem standing_of_answered [Host] (standing : shell.session.Standing limit traced colored none)
    {lines : List String} {replies : List Reply}
    (answered : (lines.mapM respond).run shell = (.ok replies, reached)) :
    shell.after lines = reached ∧ reached.session.Standing limit traced colored none := by
  induction lines generalizing shell replies with
  | nil =>
    cases answered
    exact ⟨rfl, standing⟩
  | cons line lines previous =>
    obtain ⟨reply, next, others, first, rest⟩ := run_mapM_cons_eq_ok answered
    rw [after, first]
    exact previous (standing_respond standing first) rest

/-- The session of a shell at its start. -/
theorem standing_startShell [Host] (colored : Bool) (options : CommandLine.Options) :
    (Program.startShell colored options).session.Standing (Program.limit options) options.trace
      colored none :=
  ⟨rfl, rfl, rfl, rfl, rfl, rfl, rfl⟩

end Shell

end Lisplet
