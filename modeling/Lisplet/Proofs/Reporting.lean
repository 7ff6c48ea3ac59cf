import Lisplet.Console
import Lisplet.Proofs.Chunking
import Lisplet.Proofs.Frame

/-!
What a report prints.

A report is a headline and, where the error has a place to show, a diagnosis. An error that fills the
slots of its message, and whose place lies in its source, is always reported unless one of its
arguments cannot be printed; then nothing is printed at all.

* `Console.writeLines`: several lines that are printed.
* `Error.Sound`: the errors that fill their message and lie in their source.
* `Error.diagnosis_ok`: such an error can be shown in its line.
* `Error.Sound.styled_ok_iff`: such an error can be told exactly if its message can be printed.
* `Console.reportLines`: the lines of a report.
* `Console.settle_of_fatal`, `Console.settle_of_mild`: what the console does with a fault that it can
  tell, where errors end the program and where they do not.
-/

namespace Lisplet

/-! ### Running operations -/

namespace Action

variable {σ α : Type}

@[simp]
theorem run_pure (value : α) (state : σ) :
    (pure value : ExceptT Fault (StateM σ) α).run state = (.ok value, state) := rfl

@[simp]
theorem run_throw (fault : Fault) (state : σ) :
    (throw fault : ExceptT Fault (StateM σ) α).run state = (.error fault, state) := rfl

@[simp]
theorem run_get (state : σ) : (get : ExceptT Fault (StateM σ) σ).run state = (.ok state, state) :=
  rfl

@[simp]
theorem run_set (next state : σ) :
    (set next : ExceptT Fault (StateM σ) PUnit).run state = (.ok (), next) := rfl

@[simp]
theorem run_modify (change : σ → σ) (state : σ) :
    (modify change : ExceptT Fault (StateM σ) PUnit).run state = (.ok (), change state) := rfl

theorem run_discard (action : ExceptT Fault (StateM σ) α) (state : σ) :
    (discard action).run state =
      match action.run state with
      | (.ok _, after) => (.ok (), after)
      | (.error fault, after) => (.error fault, after) := by
  refine (run_bind action (fun _ => pure ()) state).trans ?_
  rcases action.run state with ⟨_ | _, after⟩ <;> rfl

theorem run_tryCatch (action : ExceptT Fault (StateM σ) α)
    (handler : Fault → ExceptT Fault (StateM σ) α) (state : σ) :
    (tryCatch action handler).run state =
      match action.run state with
      | (.ok value, after) => (.ok value, after)
      | (.error fault, after) => (handler fault).run after := by
  rw [ExceptT.run_tryCatch]
  simp only [bind, StateT.bind]
  rcases action.run state with ⟨_ | _, after⟩ <;> rfl

end Action

/-! ### Printed lines -/

namespace Console

/-- Print texts, each on a line of its own. -/
def writeLines (lines : List String) (console : Console) : Console :=
  { console with output := console.output ++ (lines.map (· ++ "\n")).toArray }

/-- The text of lines that are printed. -/
def textOf (lines : List String) : String :=
  String.join (lines.map (· ++ "\n"))

theorem writeLine_eq (line : String) (console : Console) :
    console.writeLine line = console.writeLines [line] := by
  simp [writeLine, write, writeLines]

@[simp]
theorem writeLines_nil (console : Console) : console.writeLines [] = console := by
  simp [writeLines]

@[simp]
theorem writeLines_writeLines (console : Console) (first second : List String) :
    (console.writeLines first).writeLines second = console.writeLines (first ++ second) := by
  simp [writeLines, Array.append_assoc]

@[simp]
theorem writeLines_colored (lines : List String) (console : Console) :
    (console.writeLines lines).colored = console.colored := rfl

@[simp]
theorem writeLines_fatal (lines : List String) (console : Console) :
    (console.writeLines lines).fatal = console.fatal := rfl

@[simp]
theorem writeLines_passages (lines : List String) (console : Console) :
    (console.writeLines lines).passages = console.passages := rfl

@[simp]
theorem printed_writeLines (console : Console) (lines : List String) :
    (console.writeLines lines).printed = console.printed ++ textOf lines := by
  simp [printed, writeLines, textOf, String.join_append]

@[simp]
theorem textOf_append (first second : List String) :
    textOf (first ++ second) = textOf first ++ textOf second := by
  simp [textOf, String.join_append]

theorem textOf_cons (line : String) (lines : List String) :
    textOf (line :: lines) = line ++ "\n" ++ textOf lines := by
  simp [textOf]

/-- The console with no passage that is being worked on. -/
def forgetPassages (console : Console) : Console :=
  { console with passages := console.passages.map fun entry => (entry.1, none) }

end Console

/-! ### Errors that can be reported -/

theorem Text.lineStart_le (chars : List Char) (offset : Nat) : lineStart chars offset ≤ offset := by
  rw [lineStart_eq]
  have taken : (chars.take offset).length ≤ offset := List.length_take_le offset chars
  omega

theorem Text.lineEnd_le (chars : List Char) (offset : Nat) :
    lineEnd chars offset ≤ chars.length := by
  have first : offsetOf chars.length offset ≤ chars.length := by
    rw [offsetOf, if_neg (by omega)]
    exact Nat.min_le_right _ _
  have line := (List.takeWhile_prefix (· != '\n')
    (l := chars.drop (offsetOf chars.length offset))).length_le
  rw [List.length_drop] at line
  rw [lineEnd]
  omega

namespace Error

/-- An error that has an argument for each slot of its message, and whose place, if it is to be shown,
begins inside its source or at its end. -/
structure Sound (error : Error) : Prop where
  filled : error.kind.template.count .slot = error.args.length
  placed : error.isDiagnosed = true → 0 ≤ error.start ∧ error.start ≤ error.source.length

variable {error : Error}

/-- An error without a place needs its arguments only. -/
theorem sound_of_filled {kind : ErrorKind} {args : List Arg}
    (filled : kind.template.count .slot = args.length) : Sound { kind, args } :=
  ⟨filled, fun shown => by simp [isDiagnosed] at shown⟩

/-- A flaw that begins in a text makes an error that can be reported. -/
theorem sound_toError {flaw : Flaw} {source : String} (inside : flaw.start ≤ source.toList.length) :
    (flaw.toError source).Sound where
  filled := by
    show flaw.cause.kind.template.count .slot = flaw.cause.args.length
    cases flaw.cause <;> rfl
  placed _ := by
    refine ⟨Int.natCast_nonneg _, ?_⟩
    rw [String.length_toList] at inside
    exact Int.ofNat_le.mpr inside

/-- The line of an error is shown if its place lies in its source: neither the margin nor the mark is
longer than the source. -/
theorem diagnosis_ok [Host] (nonneg : 0 ≤ error.start) (inside : error.start ≤ error.source.length)
    (style : Style) (colored : Bool) : ∃ text, error.diagnosis style colored = .ok text := by
  obtain ⟨offset, start⟩ := Int.eq_ofNat_of_zero_le nonneg
  have begins := Text.lineStart_le error.source.toList offset
  have ends := Text.lineEnd_le error.source.toList offset
  rw [String.length_toList] at ends
  have margin : ∃ text, padding error.source.length " " error.excerpt.first = .ok text := by
    refine ⟨_, padding_eq_ok _ _ _ ?_ ?_⟩
    · simp only [excerpt, start]
      omega
    · have single : " ".length = 1 := rfl
      simp only [excerpt, start, single]
      omega
  have tail : ∃ text, padding error.source.length "~"
      (error.excerpt.last - error.excerpt.first - 1) = .ok text := by
    refine ⟨_, padding_eq_ok _ _ _ ?_ ?_⟩
    · simp only [excerpt, start]
      omega
    · have single : "~".length = 1 := rfl
      simp only [excerpt, start, single]
      omega
  obtain ⟨spaces, margin⟩ := margin
  obtain ⟨tildes, tail⟩ := tail
  rw [diagnosis]
  simp only [margin, tail]
  exact ⟨_, rfl⟩

/-! ### Messages -/

/-- Slots that are all filled make a text. -/
theorem fill_ok (pieces : List Piece) (texts : List String) (index : Nat)
    (enough : pieces.count .slot ≤ texts.length) :
    ∃ text, Piece.fill (texts.map .ok) index pieces = .ok text := by
  induction pieces generalizing texts index with
  | nil => exact ⟨"", rfl⟩
  | cons piece pieces previous =>
    cases piece with
    | text content =>
      obtain ⟨rest, filled⟩ := previous texts index (by simpa using enough)
      exact ⟨content ++ rest, by rw [Piece.fill, filled]; rfl⟩
    | slot =>
      cases texts with
      | nil => simp at enough
      | cons first others =>
        obtain ⟨rest, filled⟩ := previous others (index + 1) (by simpa using enough)
        exact ⟨first ++ rest, by rw [List.map_cons, Piece.fill]; simp only [filled]; rfl⟩

/-- A text whose slots take all arguments has been given them all. -/
theorem exists_of_fill {pieces : List Piece} {args : List (Except Fault String)} {index : Nat}
    {text : String} (all : pieces.count .slot = args.length)
    (filled : Piece.fill args index pieces = .ok text) :
    ∃ texts : List String, args = texts.map .ok := by
  induction pieces generalizing args index text with
  | nil =>
    obtain rfl : args = [] := List.eq_nil_of_length_eq_zero all.symm
    exact ⟨[], rfl⟩
  | cons piece pieces previous =>
    cases piece with
    | text content =>
      rw [Piece.fill] at filled
      cases rest : Piece.fill args index pieces with
      | error fault => simp [rest] at filled
      | ok more => exact previous (by simpa using all) rest
    | slot =>
      cases args with
      | nil => simp at all
      | cons arg args =>
        rw [Piece.fill] at filled
        cases arg with
        | error fault => cases (filled : Except.error fault = Except.ok text)
        | ok first =>
          cases rest : Piece.fill args (index + 1) pieces with
          | error fault =>
            simp only [rest] at filled
            cases (filled : Except.error fault = Except.ok text)
          | ok more =>
            obtain ⟨texts, rfl⟩ := previous (by simpa using all) rest
            exact ⟨first :: texts, rfl⟩

end Error

/-- Something is done with all items of a list, or it fails for one of them. -/
theorem mapM_ok_or_error {ε α β : Type} (items : List α) (act : α → Except ε β) :
    (∃ values, items.mapM act = .ok values ∧ items.map act = values.map .ok) ∨
      ∃ item ∈ items, ∃ failure, act item = .error failure ∧ items.mapM act = .error failure := by
  induction items with
  | nil => exact .inl ⟨[], rfl, rfl⟩
  | cons first rest previous =>
    rw [List.mapM_cons]
    cases done : act first with
    | error failure => exact .inr ⟨first, List.mem_cons_self, failure, done, rfl⟩
    | ok value =>
      obtain ⟨values, all, each⟩ | ⟨item, member, failure, failed, whole⟩ := previous
      · exact .inl ⟨value :: values, by rw [all]; rfl, by rw [List.map_cons, done, each]; rfl⟩
      · exact .inr ⟨item, List.mem_cons_of_mem _ member, failure, failed, by rw [whole]; rfl⟩

namespace Error

variable {error : Error}

/-- An error that fills its message can be told, and then its message can be printed, or one of its
arguments is an expression that cannot be printed. -/
theorem Sound.told_or_stuck [Host] (sound : error.Sound) (colored : Bool) :
    (∃ told message, error.styled colored = .ok told ∧ error.message = .ok message) ∨
      ∃ expr : Expr, ∃ fault, .expr expr ∈ error.args ∧ expr.printed = .error fault ∧
        error.styled colored = .error fault ∧ ∀ message, error.message ≠ .ok message := by
  obtain ⟨texts, all, each⟩ | ⟨arg, member, fault, failed, whole⟩ :=
    mapM_ok_or_error error.args Arg.print
  · have length : error.kind.template.count .slot = texts.length := by
      rw [sound.filled, ← List.length_map (f := Arg.print), each, List.length_map]
    obtain ⟨told, filled⟩ := fill_ok error.kind.template
      (texts.map (Style.emphasis.paint colored)) 0 (by simp [length])
    obtain ⟨message, plain⟩ := fill_ok _ texts 0 (Nat.le_of_eq length)
    refine .inl ⟨told, message, ?_, ?_⟩
    · rw [List.map_map] at filled
      rw [styled, all]
      exact filled
    · rw [Error.message, each]
      exact plain
  · refine .inr ?_
    have stuck : ∀ message, error.message ≠ .ok message := by
      intro message filled
      obtain ⟨texts, each⟩ := exists_of_fill (by rw [sound.filled, List.length_map]) filled
      have printed : arg.print ∈ texts.map Except.ok := by
        rw [← each]
        exact List.mem_map_of_mem member
      rw [failed] at printed
      simp at printed
    cases arg with
    | text content => cases failed
    | number value => cases failed
    | expr value =>
      exact ⟨value, fault, member, failed, by rw [styled, whole]; rfl, stuck⟩

/-- An error that fills its message can be told exactly if its message can be printed. -/
theorem Sound.styled_ok_iff [Host] (sound : error.Sound) (colored : Bool) :
    (∃ told, error.styled colored = .ok told) ↔ ∃ message, error.message = .ok message := by
  obtain ⟨told, message, styled, plain⟩ | ⟨_, fault, _, _, styled, stuck⟩ :=
    sound.told_or_stuck colored
  · exact ⟨fun _ => ⟨message, plain⟩, fun _ => ⟨told, styled⟩⟩
  · refine ⟨fun ⟨told, same⟩ => ?_, fun ⟨message, plain⟩ => absurd plain (stuck message)⟩
    rw [styled] at same
    cases same

end Error

/-- The message of a flaw can always be printed. -/
theorem Flaw.styled_toError [Host] {flaw : Flaw} {source : String}
    (inside : flaw.start ≤ source.toList.length) (colored : Bool) :
    ∃ told, (flaw.toError source).styled colored = .ok told := by
  obtain ⟨told, _, styled, _⟩ | ⟨expr, _, member, _⟩ :=
    (Error.sound_toError inside).told_or_stuck colored
  · exact ⟨told, styled⟩
  · change Arg.expr expr ∈ flaw.cause.args at member
    cases cause : flaw.cause <;> rw [cause] at member <;> simp [FlawCause.args] at member

/-! ### Reports -/

namespace Console

open Lisplet.Action

variable [Host] {console : Console} {error : Error}

/-- The lines that announce an error: a headline and, where there is a place to show, a diagnosis. -/
def announcement (console : Console) (error : Error) (style : Style) (headline : String) :
    Except Fault (List String) := do
  let message ← error.styled console.colored
  let first := console.location error ++ headline ++ message
  if error.isDiagnosed then return [first, ← error.diagnosis style console.colored]
  else return [first]

/-- The lines of the report of an error. -/
def reportLines (console : Console) (error : Error) : Except Fault (List String) :=
  let origin := if error.internal then Style.error.paint console.colored "[internal] " else ""
  console.announcement error Style.error (origin ++ Style.error.paint console.colored "error: ")

/-- The text is one report of an error, found while a passage of a path was worked on. -/
def IsReport (colored : Bool) (path : String) (passage : Passage) (error : Error) (text : String) :
    Prop :=
  ∃ lines, reportLines { colored, passages := [(path, some passage)] } error = .ok lines ∧
    text = textOf lines

/-- A report depends on the passage of the console and on its colours alone. -/
theorem isReport_of_reportLines {path : String} {passage : Passage} {lines : List String}
    (here : console.passages = [(path, some passage)])
    (shown : console.reportLines error = .ok lines) :
    IsReport console.colored path passage error (textOf lines) := by
  refine ⟨lines, ?_, rfl⟩
  rw [← shown]
  simp only [reportLines, announcement, location, current?, here]

/-- An error that fits its message and its source is announced if its message can be printed. -/
theorem announcement_ok (sound : error.Sound) {told : String}
    (styled : error.styled console.colored = .ok told) (style : Style) (headline : String) :
    ∃ lines, console.announcement error style headline = .ok lines := by
  rw [announcement, styled]
  show ∃ lines, (if error.isDiagnosed = true then _ else _) = Except.ok lines
  split
  · rename_i shown
    obtain ⟨nonneg, inside⟩ := sound.placed shown
    obtain ⟨text, diagnosed⟩ := Error.diagnosis_ok nonneg inside style console.colored
    exact ⟨_, by rw [diagnosed]; rfl⟩
  · exact ⟨_, rfl⟩

theorem run_announce {style : Style} {headline : String} {lines : List String}
    (announced : console.announcement error style headline = .ok lines) :
    (announce error style headline).run console = (.ok (), console.writeLines lines) := by
  rw [announcement] at announced
  simp only [announce, run_bind, run_get]
  cases styled : error.styled console.colored with
  | error fault =>
    rw [styled] at announced
    cases (announced : Except.error fault = Except.ok lines)
  | ok message =>
    rw [styled] at announced
    simp only [run_bind, run_modify]
    by_cases shown : error.isDiagnosed = true
    · cases diagnosed : error.diagnosis style console.colored with
      | error fault =>
        simp only [shown, diagnosed] at announced
        cases (announced : Except.error fault = Except.ok lines)
      | ok text =>
        simp only [shown, diagnosed] at announced
        cases (announced : Except.ok _ = Except.ok lines)
        simp [shown, writeLine_eq]
    · simp only [shown] at announced
      cases (announced : Except.ok _ = Except.ok lines)
      simp [shown, writeLine_eq]

theorem run_announce_stuck {fault : Fault} (stuck : error.styled console.colored = .error fault)
    (style : Style) (headline : String) :
    (announce error style headline).run console = (.error fault, console) := by
  simp only [announce, run_bind, run_get, stuck, run_throw]

/-- An announcement whose message can be told begins with the location of the error. -/
theorem run_announce_told {message : String}
    (told : error.styled console.colored = .ok message) (style : Style) (heading : String) :
    ∃ more, ((announce error style heading).run console).2 =
      console.writeLines ((console.location error ++ heading ++ message) :: more) := by
  simp only [announce, run_bind, run_get, told, run_modify]
  split
  · cases error.diagnosis style console.colored with
    | error fault => exact ⟨[], by simp [writeLine_eq]⟩
    | ok text => exact ⟨[text], by simp [writeLine_eq]⟩
  · exact ⟨[], by simp [writeLine_eq]⟩

/-- A report that ends the program. -/
theorem run_report_of_fatal {lines : List String} (fatal : console.fatal = true)
    (shown : console.reportLines error = .ok lines) :
    (report error).run console = (.error (.exit (some 1)), console.writeLines lines) := by
  simp only [report, run_bind, run_get, run_announce shown, writeLines_fatal, fatal]
  rfl

/-- A report after which the program goes on. -/
theorem run_report_of_mild {lines : List String} (mild : console.fatal = false)
    (shown : console.reportLines error = .ok lines) :
    (report error).run console = (.ok (), (console.writeLines lines).forgetPassages) := by
  simp only [report, run_bind, run_get, run_announce shown, writeLines_fatal, mild]
  rfl

/-- A warning without a place. -/
theorem run_warn_general {path : String} (idle : console.passages = [(path, none)])
    (message : String) :
    (warn { Error.general message with diagnosed := false }).run console =
      (.ok (), console.writeLines [Style.warning.paint console.colored "warning: "
        ++ Style.emphasis.paint console.colored message]) := by
  let error : Error := { Error.general message with diagnosed := false }
  have nowhere : console.location error = "" := by
    simp [location, current?, idle]
  have said : error.styled console.colored =
      .ok (Style.emphasis.paint console.colored message ++ "") := rfl
  have announced : console.announcement error Style.warning
      (Style.warning.paint console.colored "warning: ") =
        .ok [Style.warning.paint console.colored "warning: "
          ++ Style.emphasis.paint console.colored message] := by
    rw [announcement, nowhere, said, String.empty_append, String.append_empty]
    rfl
  rw [warn, run_bind, run_get]
  exact run_announce announced

end Console

/-! ### Faults that reach the console -/

/-- The error that tells a fault. There is none for the end of the program, nor for a breakdown that
cannot be told. -/
def Fault.told? : Fault → Option Error
  | .error found => some found
  | .interrupt => some (.general "keyboard interrupt")
  | .exhausted => some (.general "maximum recursion depth exceeded")
  | .exit _ => none
  | .breakdown failure =>
    failure.message.toOption.map fun message =>
      { Error.general ("unknown error: '" ++ failure.label ++ ": " ++ message ++ "'") with
        internal := true }

/-- Whether a fault goes on after it was told: a breakdown does. -/
def Fault.goesOn : Fault → Bool
  | .breakdown _ => true
  | _ => false

theorem Error.sound_internal (message : String) :
    Sound { Error.general message with internal := true } :=
  ⟨rfl, fun shown => by simp [isDiagnosed] at shown⟩

namespace Console

open Lisplet.Action

variable [Host] {console : Console} {error : Error} {fault : Fault} {lines : List String}

/-- A fault that is told is reported, and a breakdown goes on. -/
theorem settle_eq (told : fault.told? = some error) :
    settle fault = report error >>= fun _ => if fault.goesOn then throw fault else pure () := by
  cases fault with
  | exit code => cases told
  | breakdown breakdown =>
    simp only [Fault.told?, Option.map_eq_some_iff] at told
    obtain ⟨message, sayable, rfl⟩ := told
    cases said : breakdown.message with
    | error inner => simp [said, Except.toOption] at sayable
    | ok text =>
      simp only [said, Except.toOption, Option.some.injEq] at sayable
      subst sayable
      simp only [settle, said]
      rfl
  | error => cases told; exact (bind_pure _).symm
  | interrupt => cases told; exact (bind_pure _).symm
  | exhausted => cases told; exact (bind_pure _).symm

/-- Where errors end the program, a fault that is told does. -/
theorem settle_of_fatal (fatal : console.fatal = true) (told : fault.told? = some error)
    (shown : console.reportLines error = .ok lines) :
    (settle fault).run console = (.error (.exit (some 1)), console.writeLines lines) := by
  rw [settle_eq told, run_bind, run_report_of_fatal fatal shown]

/-- Where errors do not end the program, only a breakdown goes on after it was told. -/
theorem settle_of_mild (mild : console.fatal = false) (told : fault.told? = some error)
    (shown : console.reportLines error = .ok lines) :
    (settle fault).run console =
      (if fault.goesOn then .error fault else .ok (),
        (console.writeLines lines).forgetPassages) := by
  rw [settle_eq told, run_bind, run_report_of_mild mild shown]
  cases fault.goesOn <;> rfl

end Console

end Lisplet
