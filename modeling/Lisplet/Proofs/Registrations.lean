import Lisplet.Proofs.Ledger
import Lisplet.Proofs.NumberTexts
import Lisplet.Proofs.ShellStates
import Mathlib.Data.List.Induction
import Mathlib.Data.List.Nodup

/-!
The path that a report names.

A console is told of paths and of the passages that are worked on in them, in any order. It keeps one
passage for each path, and it keeps the paths in the order in which each of them was first named, whatever
happens to their passages afterwards. A report names the first path that has a passage. So it names the
passage that was registered last exactly if the path of that passage was named before all other paths that
have one, and always if only one path has one.

* `Console.Call`, `Console.after`: what a console is told and asked, and the console after that.
* `Console.Registered`, `Console.MostRecent`, `Console.FirstNamed`: what some calls say of the passage of a
  path.
* `Console.passages_concat`: what one call does to the passages.
* `Console.lookup_after`, `Console.paths_after`: the passages after some calls, and their order.
* `Console.current?_after`: the console is at the first path that has a passage.
* `Console.location_names_first_path`: the location of a report.
-/

namespace Lisplet

namespace Console

open Lisplet.Action

/-! ### Passages of several paths -/

/-- A path keeps its passage when one is assigned to another path. -/
theorem lookup_assign_of_ne {path other : String} (different : other ≠ path)
    (passage : Option Passage) (entries : List (String × Option Passage)) :
    (assign path passage entries).lookup other = entries.lookup other := by
  have missed : (other == path) = false := by simpa using different
  induction entries with
  | nil => rw [assign, List.lookup_cons, missed]
  | cons entry entries previous =>
    rw [assign]
    split
    · rename_i same
      rw [List.lookup_cons, List.lookup_cons, missed, same, missed]
    · rw [List.lookup_cons, List.lookup_cons, previous]

/-- A path keeps its place, and a new one goes to the end. -/
theorem paths_assign (path : String) (passage : Option Passage)
    (entries : List (String × Option Passage)) :
    (assign path passage entries).map Prod.fst =
      if path ∈ entries.map Prod.fst then entries.map Prod.fst
      else entries.map Prod.fst ++ [path] := by
  induction entries with
  | nil => rfl
  | cons entry entries previous =>
    by_cases same : entry.1 = path
    · simp [assign, same]
    · have other : path ≠ entry.1 := Ne.symm same
      rw [assign, if_neg same, List.map_cons, previous, List.map_cons]
      by_cases known : path ∈ entries.map Prod.fst
      · simp [known]
      · simp [known, other]

theorem mem_of_lookup {entries : List (String × Option Passage)} {path : String}
    {passage : Option Passage} (found : entries.lookup path = some passage) :
    (path, passage) ∈ entries := by
  obtain ⟨front, back, rfl, _⟩ := List.lookup_eq_some_iff.mp found
  simp

/-- Where every path has one entry, the passage of a path is that of its entry. -/
theorem lookup_eq_some_iff_mem {entries : List (String × Option Passage)}
    (distinct : (entries.map Prod.fst).Nodup) {path : String} {passage : Option Passage} :
    entries.lookup path = some passage ↔ (path, passage) ∈ entries := by
  refine ⟨mem_of_lookup, fun member => ?_⟩
  obtain ⟨front, back, rfl⟩ := List.append_of_mem member
  rw [List.map_append, List.map_cons] at distinct
  refine List.lookup_eq_some_iff.mpr ⟨front, back, rfl, fun entry inside => ?_⟩
  have apart := (List.nodup_append.mp distinct).2.2 entry.1 (List.mem_map_of_mem inside) path
    List.mem_cons_self
  simpa using Ne.symm apart

/-- The first entry with a passage is that of a path which has one and in front of which no path has
one. -/
theorem findSome?_entries {entries : List (String × Option Passage)}
    (distinct : (entries.map Prod.fst).Nodup) {path : String} {passage : Passage} :
    (entries.findSome? fun entry => entry.2.map fun passage => (entry.1, passage)) =
        some (path, passage) ↔
      entries.lookup path = some (some passage) ∧ ∃ near far,
        entries.map Prod.fst = near ++ path :: far ∧
          ∀ other ∈ near, ∀ older, entries.lookup other ≠ some (some older) := by
  simp only [Ne, lookup_eq_some_iff_mem distinct]
  have once := List.inj_on_of_nodup_map distinct
  constructor
  · intro found
    obtain ⟨front, ⟨named, held⟩, back, split, given, idle⟩ := List.findSome?_eq_some_iff.mp found
    obtain ⟨held, rfl, same⟩ := Option.map_eq_some_iff.mp given
    obtain ⟨rfl, rfl⟩ := Prod.mk.inj same
    refine ⟨by simp [split], front.map Prod.fst, back.map Prod.fst, by simp [split], ?_⟩
    intro other near older member
    obtain ⟨⟨other, content⟩, inside, rfl⟩ := List.mem_map.mp near
    have whole : (other, content) ∈ entries := by
      rw [split]
      exact List.mem_append_left _ inside
    obtain rfl : content = some older := (Prod.mk.inj (once whole member rfl)).2
    exact nomatch idle _ inside
  · rintro ⟨member, near, far, order, idle⟩
    obtain ⟨front, back, rfl⟩ := List.append_of_mem member
    rw [List.map_append, List.map_cons] at distinct order
    obtain ⟨_, behind, apart⟩ := List.nodup_append.mp distinct
    have ahead : path ∉ front.map Prod.fst :=
      fun inside => apart path inside path List.mem_cons_self rfl
    obtain ⟨rfl, _, _⟩ := (List.append_cons_inj_of_notMem ahead
      (List.nodup_cons.mp behind).1).mp order
    refine List.findSome?_eq_some_iff.mpr ⟨front, _, back, rfl, rfl, fun entry inside => ?_⟩
    cases held : entry.2 with
    | none => rfl
    | some older =>
      refine absurd ?_ (idle entry.1 (List.mem_map_of_mem inside) older)
      rw [← held]
      exact List.mem_append_left _ inside

/-- No path has a passage when all of them are forgotten. -/
theorem lookup_forgotten (entries : List (String × Option Passage)) (path : String)
    (passage : Passage) :
    (entries.map fun entry => (entry.1, (none : Option Passage))).lookup path ≠
      some (some passage) := by
  intro found
  have member := mem_of_lookup found
  simp at member

/-! ### Calls -/

/-- What a console is told about the paths that are worked on, and what it is asked to print. -/
inductive Call where
  | registerFile (path : String)
  | registerLine (path : String) (passage : Passage)
  | removeLine (path : String)
  | warn (error : Error)
  | report (error : Error)

namespace Call

/-- The operation that a call asks for. -/
def act [Host] : Call → Reporting Unit
  | .registerFile path | .removeLine path => modify (clearPassage path)
  | .registerLine path passage => modify (setPassage path passage)
  | .warn error => Console.warn error
  | .report error => Console.report error

/-- The path that a call names, and the passage that it has from then on. -/
def assigned? : Call → Option (String × Option Passage)
  | .registerFile path | .removeLine path => some (path, none)
  | .registerLine path passage => some (path, some passage)
  | .warn _ | .report _ => none

/-- The path that a call names. -/
def path? (call : Call) : Option String :=
  call.assigned?.map Prod.fst

/-- The error that a call prints, and what stands between its location and its message. -/
def announced? [Host] (colored : Bool) : Call → Option (Error × String)
  | .warn error => some (error, Style.warning.paint colored "warning: ")
  | .report error =>
    some (error, (if error.internal then Style.error.paint colored "[internal] " else "") ++
      Style.error.paint colored "error: ")
  | _ => none

/-- A report after which the program goes on: with it all passages are forgotten. Whether a report is one
depends neither on the passages nor on what was printed before. -/
def Forgets [Host] (console : Console) (call : Call) : Prop :=
  ∃ error, call = .report error ∧ (call.act.run console).1 = .ok ()

end Call

/-- The console after some calls, whether they failed or not. -/
def after [Host] (console : Console) (calls : List Call) : Console :=
  calls.foldl (fun console call => (call.act.run console).2) console

/-- The paths that calls name, in the order in which each of them is first named. -/
def named (calls : List Call) : List String :=
  (calls.filterMap Call.path?).eraseDups

/-- Some calls leave the passage of a path alone: none of them names the path, and none of them forgets all
passages. -/
def Spares [Host] (console : Console) (calls : List Call) (path : String) : Prop :=
  ∀ call ∈ calls, call.path? ≠ some path ∧ ¬ call.Forgets console

/-- A path has a passage after some calls: one of them registered it, and later ones left it alone. -/
def Registered [Host] (console : Console) (calls : List Call) (path : String) (passage : Passage) :
    Prop :=
  ∃ earlier later, calls = earlier ++ .registerLine path passage :: later ∧ Spares console later path

/-- The passage of a path is the one that was registered last, among those that paths have after some
calls: no path has one that was registered later. -/
def MostRecent [Host] (console : Console) (calls : List Call) (path : String) (passage : Passage) :
    Prop :=
  ∃ earlier later, calls = earlier ++ .registerLine path passage :: later ∧
    Spares console later path ∧ ∀ other newer, ¬ Registered console later other newer

/-- A path has a passage after some calls, and none of the paths named before it has one. -/
def FirstNamed [Host] (console : Console) (calls : List Call) (path : String) (passage : Passage) :
    Prop :=
  Registered console calls path passage ∧ ∃ near far, named calls = near ++ path :: far ∧
    ∀ other ∈ near, ∀ older, ¬ Registered console calls other older

/-- A place as a location gives it. -/
def place [Host] (colored : Bool) (path : String) (line : Int) : String :=
  Style.emphasis.paint colored (path ++ ":" ++ toString line ++ ": ")

/-! ### One call -/

/-- What an announcement comes to depends on the error and the colours alone. -/
theorem fst_run_announce [Host] {first second : Console} (colored : first.colored = second.colored)
    (error : Error) (style : Style) (heading : String) :
    ((announce error style heading).run first).1 = ((announce error style heading).run second).1 := by
  simp only [announce, run_bind, run_get, colored]
  cases error.styled second.colored with
  | error fault => rfl
  | ok message =>
    simp only [run_bind, run_modify]
    split
    · cases error.diagnosis style second.colored <;> rfl
    · rfl

/-- What a report comes to depends on the error, the colours and on whether errors end the program. -/
theorem fst_run_report [Host] {first second : Console} (colored : first.colored = second.colored)
    (fatal : first.fatal = second.fatal) (error : Error) :
    ((report error).run first).1 = ((report error).run second).1 := by
  simp only [report, run_bind, run_get, colored]
  generalize (if error.internal then Style.error.paint second.colored "[internal] " else "") ++
    Style.error.paint second.colored "error: " = heading
  have same := fst_run_announce colored error Style.error heading
  obtain ⟨lines, printed⟩ := run_announce_lines error Style.error heading first
  obtain ⟨others, also⟩ := run_announce_lines error Style.error heading second
  generalize (announce error Style.error heading).run first = outcome at *
  generalize (announce error Style.error heading).run second = otherOutcome at *
  obtain ⟨result, next⟩ := outcome
  obtain ⟨otherResult, other⟩ := otherOutcome
  obtain rfl : result = otherResult := same
  obtain rfl : next = first.writeLines lines := printed
  obtain rfl : other = second.writeLines others := also
  cases result with
  | error fault => rfl
  | ok _ =>
    have ends : (first.writeLines lines).fatal = (second.writeLines others).fatal := fatal
    by_cases last : (second.writeLines others).fatal = true
    · simp only [ends, last, if_true]
      rfl
    · simp only [ends, last]
      rfl

theorem run_warn_lines [Host] (error : Error) (console : Console) :
    ∃ lines, ((warn error).run console).2 = console.writeLines lines := by
  simp only [warn, run_bind, run_get]
  exact run_announce_lines error Style.warning _ console

/-- A report prints what announces its error. -/
theorem printed_report [Host] (error : Error) (console : Console) :
    ((report error).run console).2.printed = ((announce error Style.error
      ((if error.internal then Style.error.paint console.colored "[internal] " else "") ++
        Style.error.paint console.colored "error: ")).run console).2.printed := by
  simp only [report, run_bind, run_get]
  rcases (announce error Style.error _).run console with ⟨fault | _, next⟩
  · rfl
  · dsimp only
    split <;> rfl

namespace Call

variable {console : Console} {call : Call}

theorem forgets_congr [Host] {other : Console} (colored : console.colored = other.colored)
    (fatal : console.fatal = other.fatal) : call.Forgets console ↔ call.Forgets other := by
  refine exists_congr fun error => and_congr_right fun same => ?_
  subst same
  rw [act, fst_run_report colored fatal]

theorem not_forgets_of_assigned [Host] {path : String} {passage : Option Passage}
    (assigned : call.assigned? = some (path, passage)) : ¬ call.Forgets console := by
  rintro ⟨error, rfl, _⟩
  cases assigned

/-- A call that names a path assigns a passage to it, or none. -/
theorem run_of_assigned [Host] {path : String} {passage : Option Passage}
    (assigned : call.assigned? = some (path, passage)) :
    (call.act.run console).2 =
      { console with passages := assign path passage console.passages } := by
  cases call <;> cases assigned <;> rfl

/-- A call that names no path prints some lines, and all passages are forgotten, or none. -/
theorem run_of_not_assigned [Host] (console : Console) (unassigned : call.assigned? = none) :
    ∃ lines, (call.Forgets console → (call.act.run console).2 = (console.writeLines lines).forgetPassages) ∧
      (¬ call.Forgets console → (call.act.run console).2 = console.writeLines lines) := by
  cases call with
  | registerFile path => cases unassigned
  | registerLine path passage => cases unassigned
  | removeLine path => cases unassigned
  | warn error =>
    obtain ⟨lines, printed⟩ := run_warn_lines error console
    refine ⟨lines, fun forgets => ?_, fun _ => printed⟩
    obtain ⟨_, same, _⟩ := forgets
    cases same
  | report error =>
    obtain ⟨lines, ended | ⟨fault, ended⟩⟩ := run_report_cases error console
    · refine ⟨lines, fun _ => by rw [act, ended], fun stays => absurd ⟨error, rfl, ?_⟩ stays⟩
      rw [act, ended]
    · refine ⟨lines, fun forgets => ?_, fun _ => by rw [act, ended]⟩
      obtain ⟨_, same, done⟩ := forgets
      rw [act, ended] at done
      cases done

/-- No call changes the colours, nor whether errors end the program. -/
theorem settings_run [Host] (call : Call) (console : Console) :
    (call.act.run console).2.colored = console.colored ∧
      (call.act.run console).2.fatal = console.fatal := by
  cases assigned : call.assigned? with
  | some entry =>
    rw [run_of_assigned assigned]
    exact ⟨rfl, rfl⟩
  | none =>
    obtain ⟨lines, forgotten, kept⟩ := run_of_not_assigned console assigned
    by_cases forgets : call.Forgets console
    · rw [forgotten forgets]
      exact ⟨rfl, rfl⟩
    · rw [kept forgets]
      exact ⟨rfl, rfl⟩

/-- A call that prints an error whose message can be told prints the location of the error first. -/
theorem printed_run [Host] {error : Error} {heading message : String}
    (announced : call.announced? console.colored = some (error, heading))
    (told : error.styled console.colored = .ok message) :
    ∃ more, (call.act.run console).2.printed =
      console.printed ++ (console.location error ++ heading ++ message ++ "\n") ++ more := by
  cases call with
  | registerFile path => cases announced
  | registerLine path passage => cases announced
  | removeLine path => cases announced
  | warn error =>
    cases announced
    obtain ⟨more, printed⟩ := run_announce_told told Style.warning
      (Style.warning.paint console.colored "warning: ")
    refine ⟨textOf more, ?_⟩
    simp only [act, Console.warn, run_bind, run_get, printed, printed_writeLines, textOf_cons,
      String.append_assoc]
  | report error =>
    cases announced
    obtain ⟨more, printed⟩ := run_announce_told told Style.error
      ((if error.internal then Style.error.paint console.colored "[internal] " else "") ++
        Style.error.paint console.colored "error: ")
    refine ⟨textOf more, ?_⟩
    rw [act, printed_report, printed, printed_writeLines, textOf_cons]
    simp only [String.append_assoc]

end Call

/-! ### The passages after some calls -/

variable {console : Console} {calls : List Call} {path : String} {passage : Passage}

@[simp]
theorem after_nil [Host] (console : Console) : console.after [] = console := rfl

theorem after_concat [Host] (console : Console) (calls : List Call) (call : Call) :
    console.after (calls ++ [call]) = (call.act.run (console.after calls)).2 := by
  simp [after]

theorem settings_after [Host] (console : Console) (calls : List Call) :
    (console.after calls).colored = console.colored ∧
      (console.after calls).fatal = console.fatal := by
  induction calls using List.reverseRecOn with
  | nil => exact ⟨rfl, rfl⟩
  | append_singleton calls call previous =>
    rw [after_concat]
    obtain ⟨colored, fatal⟩ := call.settings_run (console.after calls)
    exact ⟨colored.trans previous.1, fatal.trans previous.2⟩

/-- What one call does to the passages: it assigns one, forgets all of them, or leaves them alone. -/
theorem passages_concat [Host] (console : Console) (calls : List Call) (call : Call) :
    (∃ path passage, call.assigned? = some (path, passage) ∧ ¬ call.Forgets console ∧
        (console.after (calls ++ [call])).passages =
          assign path passage (console.after calls).passages) ∨
      (call.assigned? = none ∧ call.Forgets console ∧
        (console.after (calls ++ [call])).passages =
          (console.after calls).passages.map fun entry => (entry.1, none)) ∨
      (call.assigned? = none ∧ ¬ call.Forgets console ∧
        (console.after (calls ++ [call])).passages = (console.after calls).passages) := by
  obtain ⟨colored, fatal⟩ := settings_after console calls
  have forgets_iff : call.Forgets (console.after calls) ↔ call.Forgets console :=
    Call.forgets_congr colored fatal
  rw [after_concat]
  cases assigned : call.assigned? with
  | some entry =>
    obtain ⟨path, passage⟩ := entry
    refine .inl ⟨path, passage, rfl, Call.not_forgets_of_assigned assigned, ?_⟩
    rw [Call.run_of_assigned assigned]
  | none =>
    obtain ⟨lines, forgotten, kept⟩ := Call.run_of_not_assigned (console.after calls) assigned
    rw [forgets_iff] at forgotten kept
    by_cases forgets : call.Forgets console
    · exact .inr (.inl ⟨rfl, forgets, by rw [forgotten forgets]; rfl⟩)
    · exact .inr (.inr ⟨rfl, forgets, by rw [kept forgets, writeLines_passages]⟩)

theorem spares_nil [Host] : Spares console [] path :=
  fun _ member => absurd member List.not_mem_nil

theorem not_registered_nil [Host] : ¬ Registered console [] path passage := by
  rintro ⟨earlier, later, split, _⟩
  simp at split

/-- A path has a passage after one more call if the call registers it, or if the path had it before and the
call neither names the path nor forgets all passages. -/
theorem registered_concat [Host] {call : Call} : Registered console (calls ++ [call]) path passage ↔
    call.assigned? = some (path, some passage) ∨
      call.path? ≠ some path ∧ ¬ call.Forgets console ∧ Registered console calls path passage := by
  constructor
  · rintro ⟨earlier, later, split, kept⟩
    rcases List.eq_nil_or_concat' later with rfl | ⟨front, last, rfl⟩
    · obtain ⟨_, same⟩ := List.append_inj' split rfl
      obtain rfl : call = .registerLine path passage := List.singleton_inj.mp same
      exact .inl rfl
    · rw [← List.cons_append, ← List.append_assoc] at split
      obtain ⟨rfl, same⟩ := List.append_inj' split rfl
      obtain rfl : call = last := List.singleton_inj.mp same
      obtain ⟨other, remembers⟩ := kept call (by simp)
      exact .inr ⟨other, remembers, earlier, front, rfl,
        fun call member => kept call (List.mem_append_left _ member)⟩
  · rintro (assigned | ⟨other, remembers, earlier, later, rfl, kept⟩)
    · have registers : call = .registerLine path passage := by
        cases call <;> cases assigned
        rfl
      exact ⟨calls, [], by rw [registers], spares_nil⟩
    · refine ⟨earlier, later ++ [call], by simp, fun next member => ?_⟩
      rcases List.mem_append.mp member with member | member
      · exact kept next member
      · rw [List.mem_singleton.mp member]
        exact ⟨other, remembers⟩

/-- The passages of a console are those that are registered. By induction on the calls. -/
theorem lookup_after [Host] (fresh : console.passages = []) :
    (console.after calls).passages.lookup path = some (some passage) ↔
      Registered console calls path passage := by
  induction calls using List.reverseRecOn with
  | nil => simp [fresh, not_registered_nil]
  | append_singleton calls call previous =>
    rw [registered_concat, ← previous]
    obtain ⟨named, assigned, call_assigned, remembers, moved⟩ | ⟨unassigned, forgets, moved⟩ |
      ⟨unassigned, remembers, moved⟩ := passages_concat console calls call
    · rw [moved, Call.path?, call_assigned]
      by_cases same : path = named
      · subst same
        rw [lookup_assign]
        simp
      · rw [lookup_assign_of_ne same]
        have other : named ≠ path := Ne.symm same
        simp [other, remembers]
    · rw [moved, Call.path?, unassigned]
      simp [forgets, lookup_forgotten]
    · rw [moved, Call.path?, unassigned]
      simp [remembers]

/-! ### The order of the paths -/

theorem named_concat (calls : List Call) (call : Call) :
    named (calls ++ [call]) =
      match call.path? with
      | none => named calls
      | some path => if path ∈ named calls then named calls else named calls ++ [path] := by
  have single : ∀ path : String, ∀ paths : List String, ([path].removeAll paths).eraseDups =
      if path ∈ paths then [] else [path] := by
    intro path paths
    by_cases known : path ∈ paths
    · simp [List.cons_removeAll, known]
    · simp [List.cons_removeAll, known, List.eraseDups_cons]
  cases found : call.path? with
  | none => simp [named, found]
  | some path =>
    simp only [named, List.filterMap_append, List.filterMap_cons, List.filterMap_nil, found,
      List.eraseDups_append, single, List.mem_eraseDups]
    split
    · rw [List.append_nil]
    · rfl

theorem nodup_named (calls : List Call) : (named calls).Nodup := by
  induction calls using List.reverseRecOn with
  | nil => exact List.nodup_nil
  | append_singleton calls call previous =>
    rw [named_concat]
    cases call.path? with
    | none => exact previous
    | some path =>
      dsimp only
      split
      · exact previous
      · rename_i new
        refine List.nodup_append.mpr ⟨previous, List.nodup_singleton path, ?_⟩
        intro other known next member
        rw [List.mem_singleton.mp member]
        exact fun same => new (same ▸ known)

/-- The paths stand in the order in which they were first named. By induction on the calls: no call moves
a path or removes one. -/
theorem paths_after [Host] (fresh : console.passages = []) (calls : List Call) :
    (console.after calls).passages.map Prod.fst = named calls := by
  induction calls using List.reverseRecOn with
  | nil => simp [fresh, named]
  | append_singleton calls call previous =>
    rw [named_concat, ← previous]
    obtain ⟨path, passage, assigned, _, moved⟩ | ⟨unassigned, _, moved⟩ | ⟨unassigned, _, moved⟩ :=
      passages_concat console calls call
    · rw [moved, paths_assign, Call.path?, assigned]
      rfl
    · rw [moved, Call.path?, unassigned, List.map_map]
      rfl
    · rw [moved, Call.path?, unassigned]
      rfl

/-- The console is at the path that was named first, among those that have a passage. -/
theorem current?_after [Host] (fresh : console.passages = []) :
    (console.after calls).current? = some (path, passage) ↔
      FirstNamed console calls path passage := by
  have order := paths_after fresh calls
  have distinct : ((console.after calls).passages.map Prod.fst).Nodup := by
    rw [order]
    exact nodup_named calls
  rw [current?, findSome?_entries distinct, order, FirstNamed]
  simp only [Ne, lookup_after fresh]

theorem current?_after_eq_none [Host] (fresh : console.passages = []) :
    (console.after calls).current? = none ↔ ∀ path passage, ¬ Registered console calls path passage := by
  constructor
  · intro idle path passage registered
    have member := mem_of_lookup ((lookup_after fresh).mpr registered)
    exact nomatch List.findSome?_eq_none_iff.mp idle _ member
  · intro none
    cases found : (console.after calls).current? with
    | none => rfl
    | some entry => exact absurd ((current?_after fresh).mp found).1 (none entry.1 entry.2)

/-- If some path has a passage, one of these paths was named before the others. -/
theorem exists_firstNamed [Host] (fresh : console.passages = [])
    (registered : ∃ path passage, Registered console calls path passage) :
    ∃ path passage, FirstNamed console calls path passage := by
  obtain ⟨path, passage, registered⟩ := registered
  cases current : (console.after calls).current? with
  | none => exact absurd registered ((current?_after_eq_none fresh).mp current path passage)
  | some entry => exact ⟨entry.1, entry.2, (current?_after fresh).mp current⟩

/-- The passage of a path is the only one that it has. -/
theorem FirstNamed.of_registered [Host] (fresh : console.passages = []) {older : Passage}
    (first : FirstNamed console calls path older) (registered : Registered console calls path passage) :
    FirstNamed console calls path passage := by
  have held := (lookup_after fresh).mpr registered
  rw [(lookup_after fresh).mpr first.1] at held
  cases held
  exact first

theorem MostRecent.registered [Host] (recent : MostRecent console calls path passage) :
    Registered console calls path passage := by
  obtain ⟨earlier, later, split, kept, _⟩ := recent
  exact ⟨earlier, later, split, kept⟩

/-- If some path has a passage, one of these was registered last. By induction on the calls: either the
first of them registers that passage, or it has no part in this. -/
theorem exists_mostRecent [Host]
    (registered : ∃ path passage, Registered console calls path passage) :
    ∃ path passage, MostRecent console calls path passage := by
  induction calls with
  | nil =>
    obtain ⟨path, passage, registered⟩ := registered
    exact absurd registered not_registered_nil
  | cons call calls previous =>
    by_cases behind : ∃ path passage, Registered console calls path passage
    · obtain ⟨path, passage, earlier, later, rfl, last⟩ := previous behind
      exact ⟨path, passage, call :: earlier, later, rfl, last⟩
    · obtain ⟨path, passage, earlier, later, split, kept⟩ := registered
      rcases List.cons_eq_append_iff.mp split with ⟨rfl, same⟩ | ⟨front, rfl, same⟩
      · obtain ⟨rfl, rfl⟩ := List.cons.inj same
        exact ⟨path, passage, [], later, rfl, kept,
          fun other newer registered => behind ⟨other, newer, registered⟩⟩
      · exact absurd ⟨path, passage, front, later, same, kept⟩ behind

/-! ### Locations -/

theorem colon_not_mem_toString (line : Int) : ':' ∉ (toString line).toList := by
  have digits : ∀ number : Nat, ':' ∉ (Nat.repr number).toList := by
    intro number member
    rw [Nat.repr, String.toList_ofList] at member
    exact absurd (isDigit_toDigits number ':' member) (by decide)
  cases line with
  | ofNat number => exact digits number
  | negSucc number =>
    show ':' ∉ ("-" ++ Nat.repr (number + 1)).toList
    rw [String.toList_append, List.mem_append, not_or]
    exact ⟨by decide, digits (number + 1)⟩

theorem place_ne_empty [Host] (colored : Bool) (path : String) (line : Int) :
    place colored path line ≠ "" := by
  obtain ⟨opening, closing, painted⟩ := Style.emphasis.exists_paint colored
  rw [place, painted]
  intro empty
  have length := congrArg String.length empty
  simp at length

/-- A place tells its path: the last colon but one stands behind it. -/
theorem path_of_place [Host] {colored : Bool} {first second : String} {line other : Int}
    (same : place colored first line = place colored second other) : first = second := by
  obtain ⟨opening, closing, painted⟩ := Style.emphasis.exists_paint colored
  have chars : first.toList ++ ':' :: (toString line).toList =
      second.toList ++ ':' :: (toString other).toList := by
    rw [place, place, painted, painted] at same
    have places := congrArg String.toList same
    simp only [String.toList_append] at places
    have inner := List.append_cancel_left (List.append_cancel_right places)
    simpa using List.append_cancel_right inner
  -- If one path were longer, its end would stand in the line number of the other place.
  have ends : ∀ {path longer between : List Char} {line other : Int}, longer = path ++ between →
      ':' :: (toString line).toList = between ++ ':' :: (toString other).toList → longer = path := by
    intro path longer between line other grown rest
    cases between with
    | nil => rw [grown, List.append_nil]
    | cons char between =>
      have colon : ':' ∈ (toString line).toList := by
        rw [(List.cons.inj rest).2]
        exact List.mem_append_right _ List.mem_cons_self
      exact absurd colon (colon_not_mem_toString line)
  rcases List.append_eq_append_iff.mp chars with ⟨between, grown, rest⟩ | ⟨between, grown, rest⟩
  · exact String.toList_inj.mp (ends grown rest).symm
  · exact String.toList_inj.mp (ends grown rest)

theorem location_of_current? [Host] {error : Error}
    (current : console.current? = some (path, passage)) :
    console.location error = place console.colored path (passage.lineOf error) := by
  rw [location, current]
  rfl

theorem location_eq_empty_iff [Host] {error : Error} :
    console.location error = "" ↔ console.current? = none := by
  cases current : console.current? with
  | none => simp [location, current]
  | some entry =>
    rw [location_of_current? current]
    simp [place_ne_empty]

theorem location_of_firstNamed [Host] (fresh : console.passages = []) {error : Error}
    (first : FirstNamed console calls path passage) :
    (console.after calls).location error = place console.colored path (passage.lineOf error) := by
  rw [← (settings_after console calls).1]
  exact location_of_current? ((current?_after fresh).mpr first)

/-- A location that gives a path with a passage gives the line in that passage: the path has no other. -/
theorem location_eq_place_iff [Host] (fresh : console.passages = []) {error : Error}
    (registered : Registered console calls path passage) :
    (console.after calls).location error = place console.colored path (passage.lineOf error) ↔
      FirstNamed console calls path passage := by
  refine ⟨fun given => ?_, location_of_firstNamed fresh⟩
  obtain ⟨other, older, first⟩ := exists_firstNamed fresh ⟨path, passage, registered⟩
  obtain rfl : other = path := path_of_place ((location_of_firstNamed fresh first).symm.trans given)
  exact first.of_registered fresh registered

/-- **A report names the first path that has a passage.** Let a console that knows of no path yet be given
any calls. A location is empty exactly if no path has a passage then. Otherwise it gives the path that was
named first among those that have a passage, and the line of the error in that passage. So the passage that
was registered last among those that paths have is the one that is named exactly if its path is that path;
this is so if no other path has a passage. Whatever is printed next about an error begins with that
location. -/
theorem location_names_first_path [Host] (console : Console) (fresh : console.passages = [])
    (calls : List Call) (error : Error) :
    let final := console.after calls
    (final.location error = "" ↔ ∀ path passage, ¬ Registered console calls path passage) ∧
      (∀ path passage, FirstNamed console calls path passage →
        final.location error = place console.colored path (passage.lineOf error)) ∧
      (∀ path passage, MostRecent console calls path passage →
        (final.location error = place console.colored path (passage.lineOf error) ↔
          FirstNamed console calls path passage)) ∧
      (∀ path passage, MostRecent console calls path passage →
        (∀ other older, Registered console calls other older → other = path) →
          final.location error = place console.colored path (passage.lineOf error)) ∧
      ((∃ path passage, Registered console calls path passage) →
        (∃ path passage, FirstNamed console calls path passage) ∧
          ∃ path passage, MostRecent console calls path passage) ∧
      ∀ call heading message, call.announced? console.colored = some (error, heading) →
        error.styled console.colored = .ok message →
          ∃ more, (console.after (calls ++ [call])).printed =
            final.printed ++ (final.location error ++ heading ++ message ++ "\n") ++ more := by
  intro final
  refine ⟨?_, fun path passage => location_of_firstNamed fresh,
    fun path passage recent => location_eq_place_iff fresh recent.registered,
    fun path passage recent alone => ?_,
    fun registered => ⟨exists_firstNamed fresh registered, exists_mostRecent registered⟩, ?_⟩
  · rw [← current?_after_eq_none fresh]
    exact location_eq_empty_iff
  · obtain ⟨other, older, first⟩ := exists_firstNamed fresh ⟨path, passage, recent.registered⟩
    obtain rfl := alone other older first.1
    exact location_of_firstNamed fresh (first.of_registered fresh recent.registered)
  · intro call heading message announced told
    rw [← (settings_after console calls).1] at announced told
    rw [after_concat]
    exact call.printed_run announced told

/-- A path that was named first and has lost its passage by a report, and another one whose passage has a
second line. -/
theorem location_names_first_path_forgotten :
    let console : Console := { fatal := false }
    let calls : List Call := [.registerLine "a" ⟨"x", 1⟩, .report { kind := .emptyList },
      .registerLine "b" ⟨"y\nz", 2⟩]
    let error : Error := { kind := .notFound, args := [.text "z"], source := "y\nz", start := 2 }
    console.passages = [] ∧ MostRecent console calls "b" ⟨"y\nz", 2⟩ ∧
      FirstNamed console calls "b" ⟨"y\nz", 2⟩ ∧
      (console.after calls).location error = place false "b" 3 := by
  intro console calls error
  have fresh : console.passages = [] := rfl
  have recent : MostRecent console calls "b" ⟨"y\nz", 2⟩ :=
    ⟨[.registerLine "a" ⟨"x", 1⟩, .report { kind := .emptyList }], [], rfl, spares_nil,
      fun _ _ => not_registered_nil⟩
  have first : FirstNamed console calls "b" ⟨"y\nz", 2⟩ :=
    (current?_after fresh).mp (by decide +kernel)
  obtain ⟨_, _, named, _⟩ := location_names_first_path console fresh calls error
  have line : Passage.lineOf ⟨"y\nz", 2⟩ error = 3 := by decide +kernel
  refine ⟨fresh, recent, first, ?_⟩
  rw [← line]
  exact (named "b" _ recent).mpr first

/-- A warning names a path whose passage was registered before that of another one: the path was named
first. -/
theorem warning_names_older_path :
    let console : Console := { fatal := false }
    let calls : List Call := [.registerLine "a" ⟨"x", 1⟩, .registerLine "b" ⟨"y", 2⟩]
    let error : Error := { kind := .emptyList }
    MostRecent console calls "b" ⟨"y", 2⟩ ∧ place false "b" (Passage.lineOf ⟨"y", 2⟩ error) = "b:2: " ∧
      (console.after calls).location error = "a:1: " ∧
      (console.after (calls ++ [.warn error])).printed =
        "a:1: warning: cannot evaluate an empty list\n" := by
  intro console calls error
  refine ⟨⟨[.registerLine "a" ⟨"x", 1⟩], [], rfl, spares_nil, fun _ _ => not_registered_nil⟩, ?_⟩
  decide +kernel

end Console

end Lisplet
