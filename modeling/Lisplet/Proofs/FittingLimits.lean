import Lisplet.Proofs.Applications
import Lisplet.Proofs.Congruence
import Lisplet.Proofs.Failures
import Lisplet.Proofs.FirstFlaw
import Lisplet.Terminal

/-!
The limits of reading and of evaluation fit together.

Reading counts the lists that are open, and refuses one too many when it is opened. Evaluation goes one
level down for each item of a list, also for an atom, and stops at the first item beyond its limit. So a
form whose lists are nested `n` levels deep is evaluated at the depths from `0` to `n`, and a limit that
admits the form to be read admits all of these. Only the body of a closure, which was read on its own,
starts at a depth that the nesting of the form does not account for.

* `Cursor.fitsWithin_of_mem_readAll`: whatever is read fits within the limit, also in front of a flaw.
* `Builtin.notTooDeep_of_call`: a native function does not run out of depth.
* `Expr.evalWithin_tooDeep`: an evaluation whose limit admits the nesting runs out of depth in a closure.
* `Expr.read_forms_run_out_of_depth_in_closures_only`: the same for a form that was read.
-/

namespace Lisplet

/-! ### Forms that were read -/

/-- The outermost of some sound sequences stands outside of all lists. -/
theorem SequencesSound.outermost {limit : Int} {items : List Expr} {outer : List (List Expr)}
    (sound : SequencesSound limit (items :: outer)) :
    ∀ item ∈ outer.getLast?.getD items, item.FitsWithin limit := by
  induction outer generalizing items with
  | nil => exact fun item member => (sound.1 item member).2
  | cons around outer previous =>
    rw [List.getLast?_cons]
    exact previous sound.2.2

/-- Whatever is read fits within the limit, also in front of a flaw. -/
theorem Cursor.fitsWithin_of_mem_readAll {limit : Int} {cursor : Cursor} {form : Expr}
    (read : form ∈ (cursor.readAll limit).forms) : form.FitsWithin limit := by
  obtain ⟨nest, tokens, front, taken, forms⟩ := exists_fed_of_readAll limit cursor
  have lawful : ∀ token ∈ tokens, token.Lawful :=
    fun token member => (scans_scan cursor).lawful token (front.subset member)
  have sound : nest.Sound limit := Nest.sound_of_feedAll Nest.sound_empty lawful taken
  rw [forms, Nest.forms, List.mem_reverse] at read
  exact SequencesSound.outermost sound form read

/-! ### Failures that have another cause -/

theorem Step.notTooDeep_of_line [Host] {step : Step} {fault : Fault}
    (stuck : step.line = .error fault) :
    fault.NotTooDeep := by
  obtain ⟨breakdown, _, rfl, _⟩ := isSayable_of_line stuck
  exact Fault.notTooDeep_breakdown breakdown

/-- A native function does not run out of depth. -/
theorem Builtin.notTooDeep_of_call {builtin : Builtin} {room scope : Nat} {args : List Expr}
    {world after : World} {fault : Fault}
    (failed : (builtin.call room scope args).run world = (.error fault, after)) :
    fault.NotTooDeep := by
  have rule := builtin.calls room scope args
  generalize builtin.call room scope args = action at rule failed
  cases rule with
  | wrongCount | wrongType | overflow =>
    cases failed
    exact Fault.notTooDeep_of_kind (by decide)
  | flawedBody =>
    cases failed
    exact Flaw.notTooDeep_toError _ _
  | unprintable _ stuck =>
    cases failed
    exact Expr.notTooDeep_of_plain stuck
  | arithmetic | identity | text | list | define | closure => exact nomatch failed

namespace Expr

open Lisplet.Action

variable {settings : Settings} {room : Nat} {depth : Int} {scope : Nat} {world after : World}
  {fault : Fault}

/-- A closure is called with as many arguments as it has parameters. -/
def Application.CallsClosure (application : Application) : Prop :=
  ∃ params body home name, application.function = .closure params body home name ∧
    application.args.length = params.length

/-- An application that runs out of depth calls a closure. -/
theorem callsClosure_of_tooDeep {run : Nat → Expr → Action Expr} {function : Expr} {args : List Expr}
    (failed : (applyWith run room scope function args).run world = (.error fault, after))
    (tooDeep : ¬ fault.NotTooDeep) :
    Application.CallsClosure ⟨room, scope, function, args, world⟩ := by
  cases function with
  | native builtin => exact absurd (Builtin.notTooDeep_of_call failed) tooDeep
  | closure params body home name =>
    by_cases matching : args.length = params.length
    · exact ⟨params, body, home, name, rfl, matching⟩
    · rw [applyWith, if_pos matching] at failed
      cases failed
      exact (tooDeep (Fault.notTooDeep_of_kind (by decide))).elim
  | _ =>
    cases failed
    exact (tooDeep (Fault.notTooDeep_of_kind (by decide))).elim

section Evaluation

variable [Host]

/-- **An evaluation whose limit admits the nesting runs out of depth only if it calls a closure.** By
induction on the levels that are left: each item of a list is nested one level less and has one depth
less. -/
theorem evalWithin_tooDeep {expr : Expr} (fits : depth + expr.nesting ≤ settings.limit)
    (failed : (evalWithin settings room depth scope expr).run world = (.error fault, after))
    (tooDeep : ¬ fault.NotTooDeep) :
    ∃ application, Applies settings room depth scope expr world application ∧
      application.CallsClosure := by
  induction room generalizing depth scope expr world with
  | zero =>
    cases failed
    exact (tooDeep Fault.notTooDeep_exhausted).elim
  | succ room deeper =>
    have below : depth ≤ settings.limit := by omega
    cases expr with
    | identifier name =>
      rw [evalWithin_below below, evalForm, run_lookup] at failed
      cases bound : world.store.lookup? scope name <;> rw [bound] at failed <;> cases failed
      exact (tooDeep (Fault.notTooDeep_of_kind (by decide))).elim
    | list items =>
      cases items with
      | nil =>
        rw [evalWithin_below below] at failed
        cases failed
        exact (tooDeep (Fault.notTooDeep_of_kind (by decide))).elim
      | cons head rest =>
        have inner : ∀ item ∈ head :: rest, depth + 1 + item.nesting ≤ settings.limit := by
          intro item member
          have smaller := nestingAll_le_iff.mp (Nat.le_refl _) item member
          rw [nesting] at fits
          push_cast at fits
          omega
        cases listFails_of_failed below failed with
        | head stopped =>
          obtain ⟨application, applies, calls⟩ := deeper (inner head List.mem_cons_self) stopped
          exact ⟨application, .head applies, calls⟩
        | notAFunction said =>
          rw [said] at tooDeep
          exact (tooDeep (Fault.notTooDeep_of_kind (by decide))).elim
        | item split ready stopped =>
          subst split
          obtain ⟨application, applies, calls⟩ := deeper (inner _ (by simp)) stopped
          exact ⟨application, .item ready applies, calls⟩
        | call ready stopped =>
          exact ⟨_, .call ready, callsClosure_of_tooDeep stopped tooDeep⟩
        | unshown _ stuck => exact absurd (Step.notTooDeep_of_line stuck) tooDeep
    | _ =>
      rw [evalWithin_below below] at failed
      cases failed

/-! ### Forms below their own limit -/

/-- **The limits of reading and of evaluation fit together.** Take any limit that is not negative, any
form that is read below it, alone or as one of several, and any scope of any world. If the evaluation of
the form at depth `0` below the same limit runs out of depth, it comes to the call of a closure. So if
it applies nothing but native functions, it does not run out of depth. -/
theorem read_forms_run_out_of_depth_in_closures_only {limit : Int} (natural : 0 ≤ limit)
    (tracing : Tracing) {cursor : Cursor} {form : Expr}
    (read : form ∈ (cursor.readAll limit).forms ∨
      ∃ after, cursor.readForm limit = (.ok form, after))
    (scope : Nat) (world : World) :
    let settings : Settings := { limit, tracing }
    let ended := ((form.eval settings 0 scope).run world).1
    (∀ error, ended = .error (.error error) → error.kind = .evaluationTooDeep →
      ∃ application, form.ComesTo settings 0 scope world application ∧ application.CallsClosure) ∧
    ((∀ application, form.ComesTo settings 0 scope world application →
        ∃ builtin, application.function = .native builtin) →
      ∀ error, ended = .error (.error error) → error.kind ≠ .evaluationTooDeep) := by
  intro settings ended
  have admitted : form.FitsWithin limit := by
    obtain together | ⟨after, alone⟩ := read
    · exact Cursor.fitsWithin_of_mem_readAll together
    · exact (Cursor.legible_of_readForm alone).2
  have fits : 0 + (form.nesting : Int) ≤ limit := by
    unfold FitsWithin HasRoom at admitted
    omega
  have inClosure : ∀ error, ended = .error (.error error) → error.kind = .evaluationTooDeep →
      ∃ application, form.ComesTo settings 0 scope world application ∧ application.CallsClosure := by
    intro error failed kind
    have whole : (form.eval settings 0 scope).run world =
        (.error (.error error), ((form.eval settings 0 scope).run world).2) := Prod.ext failed rfl
    exact evalWithin_tooDeep fits whole fun notTooDeep => notTooDeep error rfl kind
  refine ⟨inClosure, fun natives error failed kind => ?_⟩
  obtain ⟨application, comes, params, body, home, name, closure, _⟩ := inClosure error failed kind
  obtain ⟨builtin, native⟩ := natives application comes
  rw [closure] at native
  cases native

end Evaluation

/-- The body of a function is evaluated one level below the call, and its items are beyond a limit that
admits the call. -/
theorem read_forms_run_out_of_depth_in_closures_only_body :
    let body : Expr := .list [.identifier "+", .identifier "x", .integer 1]
    let world : World := { store := Store.initial.bind 0 "f" (.closure ["x"] body 0 "f") }
    let form : Expr := .list [.identifier "f", .integer 1]
    form ∈ ((Cursor.ofText "(f 1)").readAll 1).forms ∧
      ((form.eval { limit := 1 } 0 0).run world).1 =
        .error (.error { kind := .evaluationTooDeep, args := [.number 1] }) ∧
      ∃ application, form.ComesTo { limit := 1 } 0 0 world application ∧
        application.CallsClosure := by
  intro body world form
  have read : form ∈ ((Cursor.ofText "(f 1)").readAll 1).forms := by decide +kernel
  have failed : ((form.eval { limit := 1 } 0 0).run world).1 =
      .error (.error { kind := .evaluationTooDeep, args := [.number 1] }) := by decide +kernel
  obtain ⟨inClosure, _⟩ := read_forms_run_out_of_depth_in_closures_only (by decide : (0 : Int) ≤ 1)
    .off (.inl read) 0 world
  exact ⟨read, failed, inClosure _ failed rfl⟩

/-- Lists that are nested as deep as the limit admits, as the head and as an argument. -/
example :
    let form : Expr := .list [.list [.identifier "identity", .identifier "+"], .integer 1,
      .list [.identifier "*", .integer 2, .integer 3]]
    ((Cursor.ofText "((identity +) 1 (* 2 3))").readAll 2).forms = [form] ∧
      ((form.eval { limit := 2 } 0 0).run { store := Store.initial }).1 = .ok (.integer 7) := by
  decide +kernel

end Expr

end Lisplet
