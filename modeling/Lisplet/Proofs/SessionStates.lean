import Lisplet.Proofs.Values
import Lisplet.Session
import Lisplet.Terminal

/-!
The states that a session can reach.

Whatever is read and evaluated in a session, and whether or not it fails, the store of the session
stays sound, the queue holds forms, and the results are values.

* `Session.Operation`, `Session.after`: what is done with a session, and what it leads to.
* `Session.Sound`: the invariant.
* `Session.LeadsTo`: what one operation leads to from one session.
* `Session.Operation.sound_perform`: one operation.
* `Session.Sound.after`: a sequence of operations.
* `Session.reachable_states_well_formed`: every state that is reached from a fresh session.
-/

namespace Lisplet.Session

/-- What can be done with a session. -/
inductive Operation where
  /-- Read the forms of a text that begins at a line. -/
  | add (code : String) (line : Int)
  /-- Evaluate the forms in the queue. -/
  | run
  /-- Take the latest result. -/
  | pop
  deriving DecidableEq

/-- Do one thing. -/
def Operation.perform [Host] : Operation → SessionAction Unit
  | .add code line => discard (Session.add code line)
  | .run => Session.run
  | .pop => discard Session.pop

/-- The session after some operations. One that fails leaves its session to the next. -/
def after [Host] (session : Session) (operations : List Operation) : Session :=
  operations.foldl (fun session operation => (operation.perform.run session).2) session

/-- The values in a session: the results and whatever a scope binds. -/
def Holds (session : Session) (value : Expr) : Prop :=
  value ∈ session.results ∨
    ∃ index scope name, session.store.scope? index = some scope ∧ (name, value) ∈ scope.bindings

/-- The invariant of a session. -/
structure Sound (session : Session) : Prop where
  store : session.store.Sound
  rooted : rootScope < session.store.size
  queued : ∀ queued ∈ session.queue, queued.form.IsForm
  results : ∀ value ∈ session.results, value.IsValue session.store.size

variable {α β : Type} {session : Session}

theorem Sound.with_console (sound : session.Sound) (console : Console) :
    Sound { session with console } :=
  ⟨sound.store, sound.rooted, sound.queued, sound.results⟩

theorem Sound.isValue (sound : session.Sound) {value : Expr} (held : session.Holds value) :
    value.IsValue session.store.size := by
  obtain result | ⟨index, scope, name, here, bound⟩ := held
  · exact sound.results value result
  · exact sound.store.values index scope here (name, value) bound

theorem sound_start (console : Console) (path : String) (interactive : Bool) (limit : Limit)
    (traced : Bool) : (start console path interactive limit traced).Sound where
  store := Store.sound_initial
  rooted := Nat.zero_lt_one
  queued _ none := nomatch none
  results _ none := by simp [start] at none

/-! ### One operation -/

/-- An operation leads from a session to one that is sound, whether or not it fails, and to a result
that holds there. -/
def LeadsTo (session : Session) (action : SessionAction α) (holds : Session → α → Prop) : Prop :=
  (action.run session).2.Sound ∧
    ∀ value, (action.run session).1 = .ok value → holds (action.run session).2 value

theorem leadsTo_pure (sound : session.Sound) {value : α} {holds : Session → α → Prop}
    (given : holds session value) : LeadsTo session (pure value) holds := by
  refine ⟨sound, fun other same => ?_⟩
  cases same
  exact given

theorem leadsTo_throw (sound : session.Sound) (fault : Fault) (holds : Session → α → Prop) :
    LeadsTo session (throw fault) holds :=
  ⟨sound, fun _ same => nomatch same⟩

theorem leadsTo_set {next : Session} (sound : next.Sound) :
    LeadsTo session (set next) fun after _ => after = next :=
  ⟨sound, fun _ _ => rfl⟩

theorem leadsTo_modify {change : Session → Session} (sound : (change session).Sound) :
    LeadsTo session (modify change) fun after _ => after = change session :=
  ⟨sound, fun _ _ => rfl⟩

theorem LeadsTo.bind {action : SessionAction α} {next : α → SessionAction β}
    {holds : Session → α → Prop} {holdsNext : Session → β → Prop}
    (first : LeadsTo session action holds)
    (second : ∀ middle value, Sound middle → holds middle value →
      LeadsTo middle (next value) holdsNext) :
    LeadsTo session (action >>= next) holdsNext := by
  obtain ⟨sound, result⟩ := first
  unfold LeadsTo
  rw [Action.run_bind]
  rcases ran : action.run session with ⟨fault | value, middle⟩ <;> rw [ran] at sound result
  · exact leadsTo_throw sound fault holdsNext
  · exact second middle value sound (result value rfl)

theorem leadsTo_get_bind {next : Session → SessionAction β} {holds : Session → β → Prop}
    (leads : LeadsTo session (next session) holds) : LeadsTo session (get >>= next) holds :=
  leads

theorem LeadsTo.discard {action : SessionAction α} {holds : Session → α → Prop}
    (leads : LeadsTo session action holds) :
    LeadsTo session (discard action) fun _ _ => True :=
  leads.bind fun _ _ sound _ => leadsTo_pure sound trivial

theorem leadsTo_onConsole (sound : session.Sound) (action : Reporting α) :
    LeadsTo session (onConsole action) fun after _ => after.store = session.store := by
  unfold onConsole
  refine leadsTo_get_bind ?_
  rcases action.run session.console with ⟨fault | value, console⟩
  · refine (leadsTo_set (sound.with_console console)).bind fun middle _ soundThen _ => ?_
    exact leadsTo_throw soundThen fault _
  · refine (leadsTo_set (sound.with_console console)).bind fun middle _ soundThen same => ?_
    exact leadsTo_pure soundThen (by rw [same])

theorem leadsTo_receive (sound : session.Sound) (passage : Passage) :
    LeadsTo session (receive passage) fun _ _ => True :=
  ⟨⟨sound.store, sound.rooted, sound.queued, sound.results⟩, fun _ _ => trivial⟩

theorem leadsTo_setPassage (sound : session.Sound) (passage : Passage) :
    LeadsTo session (setPassage passage) fun _ _ => True :=
  ⟨sound.with_console _, fun _ _ => trivial⟩

theorem leadsTo_clearPassage (sound : session.Sound) :
    LeadsTo session clearPassage fun _ _ => True :=
  ⟨sound.with_console _, fun _ _ => trivial⟩

/-! ### Reading -/

theorem Sound.enqueue (sound : session.Sound) {more : List Queued}
    (forms : ∀ queued ∈ more, queued.form.IsForm) :
    Sound { session with queue := session.queue ++ more } where
  store := sound.store
  rooted := sound.rooted
  queued queued member := (List.mem_append.mp member).elim (sound.queued queued) (forms queued)
  results := sound.results

theorem leadsTo_add (sound : session.Sound) (code : String) (line : Int) :
    LeadsTo session (add code line) fun _ _ => True := by
  refine (leadsTo_receive sound ⟨code, line⟩).bind fun given _ soundGiven _ => ?_
  refine (leadsTo_setPassage soundGiven ⟨code, line⟩).bind fun middle _ soundThen _ => ?_
  refine leadsTo_get_bind ?_
  cases flaw : (Reading.ofText middle.limit.number code).flaw with
  | some flaw =>
    simp only [flaw]
    exact leadsTo_throw soundThen _ _
  | none =>
    simp only [flaw]
    have forms : ∀ queued ∈ (Reading.ofText middle.limit.number code).forms.map
        (Queued.mk ⟨code, line⟩), queued.form.IsForm := by
      intro queued member
      obtain ⟨form, read, rfl⟩ := List.mem_map.mp member
      exact Reading.isForm_of_flawless flaw form read
    refine (leadsTo_modify (soundThen.enqueue forms)).bind fun later _ soundLater _ => ?_
    refine (leadsTo_clearPassage soundLater).bind fun final _ soundFinal _ => ?_
    exact leadsTo_pure soundFinal trivial

/-! ### Evaluating -/

/-- Evaluation leaves a sound store behind, in which all results are still values. -/
theorem leadsTo_evaluate [Host] (sound : session.Sound) {form : Expr} (isForm : form.IsForm) :
    LeadsTo session (evaluate form) fun after value => value.IsValue after.store.size := by
  unfold evaluate
  refine leadsTo_get_bind ?_
  dsimp only
  generalize Settings.mk session.limit.number
    (if session.traced = true then .shown else .off) = settings
  have keeps := Expr.eval_keeps settings 0 sound.rooted isForm { store := session.store }
    (Nat.le_refl _) sound.store
  generalize (form.eval settings 0 rootScope).run { store := session.store } = outcome at keeps ⊢
  obtain ⟨outcome, world⟩ := outcome
  obtain ⟨grown, kept, result⟩ := keeps
  have next : Sound { session with store := world.store } :=
    { store := kept
      rooted := Nat.lt_of_lt_of_le sound.rooted grown
      queued := sound.queued
      results := fun value member => (sound.results value member).mono grown }
  refine (leadsTo_set next).bind fun second _ soundSecond stored => ?_
  refine (leadsTo_onConsole soundSecond _).bind fun third _ soundThird same => ?_
  cases outcome with
  | error fault => exact leadsTo_throw soundThird _ _
  | ok value =>
    have fits : value.IsValue third.store.size := by
      rw [same, stored]
      exact result value rfl
    exact leadsTo_pure soundThird fits

theorem Sound.push (sound : session.Sound) {value : Expr}
    (fits : value.IsValue session.store.size) :
    Sound { session with results := session.results.push value } where
  store := sound.store
  rooted := sound.rooted
  queued := sound.queued
  results other member := by
    obtain older | rfl := Array.mem_push.mp member
    · exact sound.results other older
    · exact fits

theorem leadsTo_runOne [Host] (sound : session.Sound) {queued : Queued}
    (isForm : queued.form.IsForm) :
    LeadsTo session (runOne queued) fun _ _ => True := by
  refine (leadsTo_setPassage sound queued.passage).bind fun second _ soundSecond _ => ?_
  refine (leadsTo_evaluate soundSecond isForm).bind fun third value soundThird fits => ?_
  refine (leadsTo_modify (soundThird.push fits)).bind fun fourth _ soundFourth _ => ?_
  exact leadsTo_clearPassage soundFourth

/-- The forms of a queue, by induction on it. -/
theorem leadsTo_runAll [Host] (sound : session.Sound) {waiting : List Queued}
    (forms : ∀ queued ∈ waiting, queued.form.IsForm) :
    LeadsTo session (runAll waiting) fun _ _ => True := by
  induction waiting generalizing session with
  | nil => exact leadsTo_pure sound trivial
  | cons queued rest previous =>
    rw [List.forall_mem_cons] at forms
    have shorter : Sound { session with queue := rest } :=
      ⟨sound.store, sound.rooted, forms.2, sound.results⟩
    refine (leadsTo_modify shorter).bind fun second _ soundSecond _ => ?_
    refine (leadsTo_runOne soundSecond forms.1).bind fun third _ soundThird _ => ?_
    exact previous soundThird forms.2

theorem leadsTo_pop (sound : session.Sound) : LeadsTo session pop fun _ _ => True := by
  have older : ∀ value ∈ session.results.pop, value ∈ session.results := by
    intro value member
    rw [← Array.mem_toList_iff, Array.toList_pop] at member
    exact Array.mem_toList_iff.mp ((List.dropLast_sublist _).mem member)
  have fewer : Sound { session with results := session.results.pop } :=
    ⟨sound.store, sound.rooted, sound.queued,
      fun value member => sound.results value (older value member)⟩
  unfold pop
  refine leadsTo_get_bind ?_
  cases session.results.back? with
  | some value =>
    refine (leadsTo_set fewer).bind fun _ _ soundThen _ => ?_
    exact leadsTo_pure soundThen trivial
  | none => exact leadsTo_throw sound _ _

/-! ### All operations -/

/-- One operation. -/
theorem Operation.sound_perform [Host] (sound : session.Sound) (operation : Operation) :
    (operation.perform.run session).2.Sound := by
  cases operation with
  | add code line => exact (leadsTo_add sound code line).discard.1
  | run => exact (leadsTo_runAll sound sound.queued).1
  | pop => exact (leadsTo_pop sound).discard.1

/-- A sequence of operations. -/
theorem Sound.after [Host] (sound : session.Sound) (operations : List Operation) :
    (session.after operations).Sound := by
  induction operations generalizing session with
  | nil => exact sound
  | cons operation operations previous => exact previous (operation.sound_perform sound)

/-- **Every reachable state of a session is well formed.** After any operations, whether they
succeed or fail, every parent scope is older than its children, so the chain of a scope leads over
all its ancestors to one without a parent; and all results and bound values are values of the store:
their functions were made over a scope that exists, with distinct parameters that read as
identifiers and with a body that holds no function and is no deeper than the limit, they have no
identifiers outside of such bodies, and their numbers are 32-bit integers and finite floats without
a sign. -/
theorem reachable_states_well_formed [Host] (console : Console) (path : String) (interactive : Bool)
    (limit : Limit) (traced : Bool) (operations : List Operation) :
    let reached := (start console path interactive limit traced).after operations
    (∀ index parent, reached.store.parent? index = some parent → parent < index) ∧
      (∀ index, reached.store.Ancestry index (reached.store.chain index)) ∧
      ∀ value, reached.Holds value → value.IsValue reached.store.size := by
  intro reached
  have sound : reached.Sound := (sound_start console path interactive limit traced).after operations
  exact ⟨sound.store.parents, sound.store.ancestry_chain, fun _ held => sound.isValue held⟩

/-- A list that holds a function and what a call of it gave, in a session where another call of it
failed, and so did the reading of a text. -/
theorem reachable_states_well_formed_closure :
    let code := "(def \"f\" (fn \"x\" \"(list x 1.5)\")) (list f (f 7)) (f)"
    let operations : List Operation := [.add code 1, .run, .add "((" 2, .run]
    let reached := (start {} interactivePath true .standard false).after operations
    let body := .list [.identifier "list", .identifier "x", .float ⟨false, 1069547520⟩]
    let value := .list [.closure ["x"] body 0 "f",
      .list [.integer 7, .float ⟨false, 1069547520⟩]]
    reached.Holds value ∧ value.IsValue reached.store.size ∧
      reached.store.parent? 1 = some 0 ∧ 0 < 1 := by
  intro code operations reached body value
  have found : reached.results[1]? = some value ∧ reached.store.parent? 1 = some 0 := by
    decide +kernel
  have held : reached.Holds value := .inl (Array.mem_of_getElem? found.1)
  obtain ⟨parents, _, values⟩ :=
    reachable_states_well_formed {} interactivePath true .standard false operations
  exact ⟨held, values value held, found.2, parents 1 0 found.2⟩

end Lisplet.Session
