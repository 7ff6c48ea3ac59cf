import Lisplet.Proofs.Congruence
import Lisplet.Terminal
import Mathlib.Data.List.Chain

/-!
The record of an evaluation.

Every list that is evaluated is recorded as soon as it has a value, so its step stands behind those of
its items and of the function body that it calls. The steps of a whole evaluation are those of a tree
in post-order; an evaluation that fails leaves the trees that were complete by then. Recording steps has
no influence on what is evaluated.

* `Step.Encloses`: the step of a list, and one of its items or of the body that it calls.
* `PostOrder`: the steps of complete trees, one behind the other.
* `PostOrder.enclosed`: the first step behind another one that is less deep is the one around it.
* `Recorded`, `Abandoned`: the steps of an evaluation that gives a value, and of one that fails.
* `Action.Adds`: what an action adds to the steps.
* `Expr.evalForm_adds`, `Expr.evalWithin_adds`: what an evaluation adds.
* `Action.Alike`, `Expr.evalWithin_alike`: the same without recording.
* `Expr.eval_recorded_in_post_order`: both, for evaluations at a depth below a limit.
-/

namespace Lisplet

/-! ### Trees of steps -/

/-- A step of a list, and a step of one of its items, or of the body of the function that it calls,
which has the same value. -/
def Step.Encloses (outer inner : Step) : Prop :=
  ∃ items, outer.expr = .list items ∧ (inner.expr ∈ items ∨ inner.value = outer.value)

/-- The depths of steps drop by one at most. -/
def Step.DropsByOne (earlier later : Step) : Prop :=
  earlier.depth ≤ later.depth + 1

/-- Complete trees of steps, one behind the other, with their roots at a depth and all steps above
`top`. Every root stands behind what it encloses. -/
inductive PostOrder (top : Int) : Int → List Step → Prop
  | nil {depth : Int} : PostOrder top depth []
  | tree {depth : Int} {inner rest : List Step} {step : Step} (root : step.depth = depth)
      (low : depth < top) (below : PostOrder top (depth + 1) inner)
      (encloses : ∀ part ∈ inner, part.depth = depth + 1 → step.Encloses part)
      (more : PostOrder top depth rest) : PostOrder top depth (inner ++ step :: rest)

namespace PostOrder

variable {top depth : Int} {steps more : List Step}

theorem append (first : PostOrder top depth steps) (second : PostOrder top depth more) :
    PostOrder top depth (steps ++ more) := by
  induction first with
  | nil => exact second
  | tree root low below encloses _ _ previous =>
    rw [List.append_assoc, List.cons_append]
    exact .tree root low below encloses (previous second)

theorem depths (trees : PostOrder top depth steps) :
    ∀ step ∈ steps, depth ≤ step.depth ∧ step.depth < top := by
  induction trees with
  | nil => simp
  | tree root low _ _ _ inside later =>
    intro step member
    obtain inner | rfl | behind := by simpa using member
    · have deeper := inside step inner
      omega
    · omega
    · exact later step behind

/-- The last step is a root. -/
theorem last (trees : PostOrder top depth steps) : ∀ step ∈ steps.getLast?, step.depth = depth := by
  induction trees with
  | nil => simp
  | @tree depth inner rest step root _ _ _ _ _ later =>
    intro final isLast
    cases rest with
    | nil =>
      obtain rfl : step = final := by simpa using isLast
      exact root
    | cons next rest => exact later final (by simpa using isLast)

theorem drops (trees : PostOrder top depth steps) : steps.IsChain Step.DropsByOne := by
  induction trees with
  | nil => exact .nil
  | @tree depth inner rest step root _ below _ more inside later =>
    refine List.isChain_append.mpr ⟨inside, List.isChain_cons.mpr ⟨?_, later⟩, ?_⟩
    · intro next first
      have lower := (more.depths next (List.mem_of_mem_head? first)).1
      unfold Step.DropsByOne
      omega
    · intro final isLast next first
      obtain rfl : step = next := by simpa using first
      have level := below.last final isLast
      unfold Step.DropsByOne
      omega

/-- Behind every step that is no root, the first step that is less deep is the one that encloses it. -/
theorem enclosed (trees : PostOrder top depth steps) {front back : List Step} {step : Step}
    (split : steps = front ++ step :: back) (inside : depth < step.depth) :
    ∃ between outer rest, back = between ++ outer :: rest ∧ outer.depth = step.depth - 1 ∧
      (∀ other ∈ between, step.depth ≤ other.depth) ∧ outer.Encloses step := by
  induction trees generalizing front back with
  | nil => simp at split
  | @tree depth inner rest root rootDepth low below encloses more within later =>
    obtain ⟨ahead, _, tail⟩ | ⟨behind, whole, tail⟩ := List.append_eq_append_iff.mp split
    · -- The step stands behind the tree, since the root itself is too high.
      cases ahead with
      | nil =>
        obtain ⟨rfl, rfl⟩ : root = step ∧ rest = back := by simpa using tail
        omega
      | cons first ahead =>
        obtain ⟨_, rest⟩ : root = first ∧ rest = ahead ++ step :: back := by simpa using tail
        exact later rest inside
    · cases behind with
      | nil =>
        obtain ⟨rfl, rfl⟩ : step = root ∧ back = rest := by simpa using tail
        omega
      | cons first behind =>
        obtain ⟨rfl, rfl⟩ : step = first ∧ back = behind ++ root :: rest := by simpa using tail
        have member : step ∈ inner := by simp [whole]
        by_cases child : step.depth = depth + 1
        · refine ⟨behind, root, rest, rfl, by omega, fun other between => ?_, ?_⟩
          · have lower := (below.depths other (by simp [whole, between])).1
            omega
          · exact encloses step member child
        · have deeper := (below.depths step member).1
          obtain ⟨between, outer, more, rfl, level, lower, around⟩ := within whole (by omega)
          exact ⟨between, outer, more ++ root :: rest, by simp, level, lower, around⟩

end PostOrder

/-- The steps of an evaluation at a depth that gave a value: none if the expression is no list, else
those of one tree. -/
inductive Recorded (top depth : Int) : Expr → Expr → List Step → Prop
  | atom {expr value : Expr} (notList : ∀ items, expr ≠ .list items) (reached : depth ≤ top) :
      Recorded top depth expr value []
  | list {items : List Expr} {value : Expr} {inner : List Step} (low : depth < top)
      (below : PostOrder top (depth + 1) inner)
      (encloses : ∀ part ∈ inner, part.depth = depth + 1 →
        Step.Encloses ⟨depth, .list items, value⟩ part) :
      Recorded top depth (.list items) value (inner ++ [⟨depth, .list items, value⟩])

/-- The steps of an evaluation at a depth that failed: complete trees one level further down, and then
the steps of an evaluation there that failed. -/
inductive Abandoned (top : Int) : Int → List Step → Prop
  | complete {depth : Int} {steps : List Step} (trees : PostOrder top (depth + 1) steps) :
      Abandoned top depth steps
  | inside {depth : Int} {steps more : List Step} (trees : PostOrder top (depth + 1) steps)
      (failed : Abandoned top (depth + 1) more) : Abandoned top depth (steps ++ more)

section Records

variable {top depth : Int} {expr value : Expr} {steps more : List Step}

theorem Recorded.reached (recorded : Recorded top depth expr value steps) : depth ≤ top := by
  cases recorded with
  | atom _ reached => exact reached
  | list low => exact Int.le_of_lt low

theorem Recorded.postOrder (recorded : Recorded top depth expr value steps) :
    PostOrder top depth steps := by
  cases recorded with
  | atom => exact .nil
  | list low below encloses => exact .tree rfl low below encloses .nil

/-- The only root is the step of the expression itself. -/
theorem Recorded.root (recorded : Recorded top depth expr value steps) :
    ∀ step ∈ steps, step.depth = depth → step = ⟨depth, expr, value⟩ := by
  intro step member level
  cases recorded with
  | atom => simp at member
  | list low below =>
    obtain inside | rfl := by simpa using member
    · have deeper := (below.depths step inside).1
      omega
    · rfl

theorem abandoned_nil : Abandoned top depth [] :=
  .complete .nil

theorem Abandoned.outside (failed : Abandoned top (depth + 1) steps) : Abandoned top depth steps :=
  .inside .nil failed

theorem Abandoned.behind (trees : PostOrder top (depth + 1) steps)
    (failed : Abandoned top depth more) : Abandoned top depth (steps ++ more) := by
  cases failed with
  | complete others => exact .complete (trees.append others)
  | inside others failed =>
    rw [← List.append_assoc]
    exact .inside (trees.append others) failed

theorem Abandoned.depths (failed : Abandoned top depth steps) :
    ∀ step ∈ steps, depth < step.depth ∧ step.depth < top := by
  induction failed with
  | complete trees =>
    intro step member
    have level := trees.depths step member
    omega
  | inside trees _ previous =>
    intro step member
    obtain done | later := List.mem_append.mp member
    · have level := trees.depths step done
      omega
    · have level := previous step later
      omega

theorem Abandoned.drops (failed : Abandoned top depth steps) : steps.IsChain Step.DropsByOne := by
  induction failed with
  | complete trees => exact trees.drops
  | inside trees failed previous =>
    refine List.isChain_append.mpr ⟨trees.drops, previous, fun final isLast next first => ?_⟩
    have level := trees.last final isLast
    have lower := (failed.depths next (List.mem_of_mem_head? first)).1
    unfold Step.DropsByOne
    omega

end Records

/-! ### What actions add to the steps -/

namespace Action

variable {α β : Type} {done : α → List Step → Prop} {failed : List Step → Prop}

/-- Whatever the world, the steps that an action adds are `done` for the value that it gives, or
`failed`. -/
def Adds (action : Action α) (done : α → List Step → Prop) (failed : List Step → Prop) : Prop :=
  ∀ world, ∃ added, (action.run world).2.steps.toList = world.steps.toList ++ added ∧
    match (action.run world).1 with
    | .ok value => done value added
    | .error _ => failed added

/-- An action that records nothing. -/
def Silent (action : Action α) : Prop :=
  ∀ world, (action.run world).2.steps = world.steps

theorem Silent.adds {action : Action α} (silent : Silent action) (given : ∀ value, done value [])
    (stopped : failed []) : Adds action done failed := by
  intro world
  refine ⟨[], by rw [silent world, List.append_nil], ?_⟩
  cases (action.run world).1 with
  | ok value => exact given value
  | error fault => exact stopped

theorem adds_throw {fault : Fault} (stopped : failed []) :
    Adds (throw fault : Action α) done failed :=
  fun _ => ⟨[], (List.append_nil _).symm, stopped⟩

theorem adds_fail (kind : ErrorKind) (args : List Arg) (stopped : failed []) :
    Adds (fail kind args) done failed :=
  adds_throw stopped

theorem adds_pure {value : α} (given : done value []) : Adds (pure value) done failed :=
  fun _ => ⟨[], (List.append_nil _).symm, given⟩

/-- One action after another: the steps of the second one stand behind those of the first one. -/
theorem Adds.bind {action : Action α} {next : α → Action β} {doneNext : β → List Step → Prop}
    {failedNext : List Step → Prop} (first : Adds action done failed)
    (stopped : ∀ added, failed added → failedNext added)
    (second : ∀ value front, done value front → Adds (next value)
      (fun result back => doneNext result (front ++ back)) fun back => failedNext (front ++ back)) :
    Adds (action >>= next) doneNext failedNext := by
  intro world
  obtain ⟨front, steps, ended⟩ := first world
  rw [run_bind]
  rcases ran : action.run world with ⟨fault | value, middle⟩ <;> rw [ran] at steps ended
  · exact ⟨front, steps, stopped front ended⟩
  · obtain ⟨back, stepsThen, endedThen⟩ := second value front ended middle
    refine ⟨front ++ back, ?_, endedThen⟩
    rw [stepsThen, steps, List.append_assoc]

theorem Adds.imp {action : Action α} {doneThen : α → List Step → Prop}
    {failedThen : List Step → Prop} (adds : Adds action done failed)
    (given : ∀ value added, done value added → doneThen value added)
    (stopped : ∀ added, failed added → failedThen added) : Adds action doneThen failedThen := by
  intro world
  obtain ⟨added, steps, ended⟩ := adds world
  refine ⟨added, steps, ?_⟩
  cases result : (action.run world).1 with
  | ok value =>
    rw [result] at ended
    exact given value added ended
  | error fault =>
    rw [result] at ended
    exact stopped added ended

theorem Silent.adds_bind {action : Action α} {next : α → Action β} {done : β → List Step → Prop}
    (silent : Silent action) (stopped : failed []) (second : ∀ value, Adds (next value) done failed) :
    Adds (action >>= next) done failed := by
  have first : Adds action (fun _ added => added = []) fun added => added = [] :=
    silent.adds (fun _ => rfl) rfl
  refine first.bind ?_ ?_
  · rintro _ rfl
    exact stopped
  · rintro value _ rfl
    exact second value

theorem adds_record (step : Step) :
    Adds (record step) (fun _ added => added = [step]) fun _ => False :=
  fun _ => ⟨[step], Array.toList_push, rfl⟩

theorem silent_pure (value : α) : Silent (pure value : Action α) :=
  fun _ => rfl

theorem silent_throw (fault : Fault) : Silent (throw fault : Action α) :=
  fun _ => rfl

theorem silent_lookup (scope : Nat) (name : String) : Silent (lookup scope name) := by
  intro world
  rw [run_lookup]
  cases world.store.lookup? scope name <;> rfl

end Action

/-- A native function records nothing. -/
theorem Builtin.call_silent (builtin : Builtin) (room scope : Nat) (args : List Expr) :
    Action.Silent (builtin.call room scope args) := by
  have rule := builtin.calls room scope args
  generalize builtin.call room scope args = action at rule
  cases rule with
  | wrongCount => exact Action.silent_throw _
  | wrongType => exact Action.silent_throw _
  | arithmetic => exact Action.silent_pure _
  | overflow => exact Action.silent_throw _
  | identity value => exact Action.silent_pure value
  | text content => exact Action.silent_pure _
  | unprintable => exact Action.silent_throw _
  | list args => exact Action.silent_pure _
  | define name value => exact fun _ => rfl
  | flawedBody => exact Action.silent_throw _
  | closure => exact Action.silent_pure _

namespace Expr

open Lisplet.Action

variable {top depth : Int}

/-- The items of a list, which all become parts of the same tree. -/
theorem mapM_adds {act : Expr → Action Expr} (items : List Expr)
    (each : ∀ item, Adds (act item) (Recorded top (depth + 1) item) (Abandoned top (depth + 1))) :
    Adds (items.mapM act)
      (fun _ added => PostOrder top (depth + 1) added ∧
        ∀ part ∈ added, part.depth = depth + 1 → part.expr ∈ items)
      (Abandoned top depth) := by
  induction items with
  | nil => exact adds_pure ⟨.nil, by simp⟩
  | cons item rest previous =>
    rw [List.mapM_cons]
    refine (each item).bind (fun _ => Abandoned.outside) fun value front recorded => ?_
    refine previous.bind (fun back failed => failed.behind recorded.postOrder) ?_
    rintro values back ⟨trees, roots⟩
    refine adds_pure ?_
    rw [List.append_nil]
    refine ⟨recorded.postOrder.append trees, fun part member level => ?_⟩
    obtain here | there := List.mem_append.mp member
    · rw [recorded.root part here level]
      exact List.mem_cons_self
    · exact List.mem_cons_of_mem _ (roots part there level)

/-- A call, whose value is that of the function body. -/
theorem applyWith_adds {run : Nat → Expr → Action Expr}
    (body : ∀ scope expr,
      Adds (run scope expr) (Recorded top (depth + 1) expr) (Abandoned top (depth + 1)))
    (room scope : Nat) (function : Expr) (args : List Expr) :
    Adds (applyWith run room scope function args)
      (fun value added => PostOrder top (depth + 1) added ∧
        ∀ part ∈ added, part.depth = depth + 1 → part.value = value)
      (Abandoned top depth) := by
  cases function with
  | native builtin =>
    exact (builtin.call_silent room scope args).adds (fun _ => ⟨.nil, by simp⟩) abandoned_nil
  | closure params form home name =>
    simp only [applyWith]
    split
    · exact adds_fail _ _ abandoned_nil
    · have created : Silent (createScope (params.zip args) home) := fun _ => rfl
      refine created.adds_bind abandoned_nil fun inner => ?_
      refine (body inner form).imp (fun value added recorded => ?_) fun _ => Abandoned.outside
      refine ⟨recorded.postOrder, fun part member level => ?_⟩
      rw [recorded.root part member level]
  | _ => exact adds_fail _ _ abandoned_nil

variable [Host]

/-- One level of evaluation adds a tree, or what is left of one, if that is so one level further down. -/
theorem evalForm_adds {run : Nat → Expr → Action Expr} (reached : depth ≤ top)
    (inner : ∀ scope expr,
      Adds (run scope expr) (Recorded top (depth + 1) expr) (Abandoned top (depth + 1)))
    (room scope : Nat) (expr : Expr) :
    Adds (evalForm .recorded run room depth scope expr) (Recorded top depth expr)
      (Abandoned top depth) := by
  cases expr with
  | identifier name =>
    exact (silent_lookup scope name).adds (fun _ => .atom (by simp) reached) abandoned_nil
  | list items =>
    cases items with
    | nil => exact adds_fail _ _ abandoned_nil
    | cons head rest =>
      rw [evalForm]
      refine (inner scope head).bind (fun _ => Abandoned.outside) fun function first headed => ?_
      split
      · refine (mapM_adds rest (inner scope)).bind
          (fun _ failed => failed.behind headed.postOrder) ?_
        rintro args second ⟨secondTrees, secondRoots⟩
        refine (applyWith_adds inner room scope function args).bind
          (fun _ failed => (failed.behind secondTrees).behind headed.postOrder) ?_
        rintro value third ⟨thirdTrees, thirdRoots⟩
        refine (adds_record _).bind (fun _ never => never.elim) ?_
        rintro _ _ rfl
        refine adds_pure ?_
        have trees : PostOrder top (depth + 1) (first ++ (second ++ third)) :=
          headed.postOrder.append (secondTrees.append thirdTrees)
        have recorded : Recorded top depth (.list (head :: rest)) value
            (first ++ (second ++ third) ++ [⟨depth, .list (head :: rest), value⟩]) := by
          refine .list headed.reached trees fun part member level => ⟨head :: rest, rfl, ?_⟩
          simp only [List.mem_append] at member
          obtain inHead | inItem | inBody := member
          · rw [headed.root part inHead level]
            exact .inl List.mem_cons_self
          · exact .inl (List.mem_cons_of_mem _ (secondRoots part inItem level))
          · exact .inr (thirdRoots part inBody level)
        simpa only [List.append_assoc, List.append_nil] using recorded
      · refine adds_fail _ _ ?_
        rw [List.append_nil]
        exact .complete headed.postOrder
  | _ => exact adds_pure (.atom (by simp) reached)

/-- **An evaluation records a tree, or what is left of one.** By induction on the levels that are left:
where the stack or the limit is used up, nothing is recorded. -/
theorem evalWithin_adds {settings : Settings} (recording : settings.tracing = .recorded)
    (room : Nat)
    (depth : Int) (scope : Nat) (expr : Expr) :
    Adds (evalWithin settings room depth scope expr) (Recorded settings.limit depth expr)
      (Abandoned settings.limit depth) := by
  induction room generalizing depth scope expr with
  | zero => exact adds_throw abandoned_nil
  | succ room deeper =>
    by_cases below : depth ≤ settings.limit
    · rw [evalWithin_below below, recording]
      exact evalForm_adds below (deeper (depth + 1)) room scope expr
    · rw [evalWithin_beyond (Int.not_le.mp below)]
      exact adds_fail _ _ abandoned_nil

/-- The evaluation of an expression that is no list records nothing, also if it fails. -/
theorem evalWithin_silent (settings : Settings) (room scope : Nat) {expr : Expr}
    (notList : ∀ items, expr ≠ .list items) : Silent (evalWithin settings room depth scope expr) := by
  cases room with
  | zero => exact silent_throw _
  | succ room =>
    rw [evalWithin]
    split
    · exact silent_throw _
    · cases expr with
      | identifier name => exact silent_lookup scope name
      | list items => exact absurd rfl (notList items)
      | _ => exact silent_pure _

end Expr

/-! ### The same without recording -/

namespace Action

variable {α β : Type}

/-- Two actions that give the same result and do the same to a store, whatever the steps are. -/
def Alike (first second : Action α) : Prop :=
  ∀ world other, world.store = other.store →
    (first.run world).1 = (second.run other).1 ∧
      (first.run world).2.store = (second.run other).2.store

theorem alike_pure (value : α) : Alike (pure value) (pure value) :=
  fun _ _ same => ⟨rfl, same⟩

theorem alike_throw (fault : Fault) : Alike (throw fault : Action α) (throw fault) :=
  fun _ _ same => ⟨rfl, same⟩

theorem Alike.bind {first second : Action α} {next nextToo : α → Action β}
    (alike : Alike first second) (alikeNext : ∀ value, Alike (next value) (nextToo value)) :
    Alike (first >>= next) (second >>= nextToo) := by
  intro world other same
  obtain ⟨result, store⟩ := alike world other same
  rw [run_bind, run_bind]
  rcases ran : first.run world with ⟨outcome, middle⟩
  rcases ranToo : second.run other with ⟨outcomeToo, middleToo⟩
  rw [ran, ranToo] at result store
  subst result
  cases outcome with
  | error fault => exact ⟨rfl, store⟩
  | ok value => exact alikeNext value middle middleToo store

theorem alike_lookup (scope : Nat) (name : String) :
    Alike (lookup scope name) (lookup scope name) := by
  intro world other same
  rw [run_lookup, run_lookup, same]
  cases other.store.lookup? scope name with
  | some value => exact alike_pure value world other same
  | none => exact alike_throw _ world other same

theorem alike_bindName (scope : Nat) (name : String) (value : Expr) :
    Alike (bindName scope name value) (bindName scope name value) :=
  fun _ _ same => ⟨rfl, congrArg (Store.bind · scope name value) same⟩

theorem alike_createScope (bindings : List (String × Expr)) (parent : Nat) :
    Alike (createScope bindings parent) (createScope bindings parent) := by
  intro world other same
  exact ⟨congrArg (fun store : Store => Except.ok store.size) same,
    congrArg (Store.create · bindings (some parent)) same⟩

/-- Giving the same result is kept by evaluation. -/
theorem alike_congruence : Congruence @Alike where
  value := alike_pure
  fault _ := alike_throw _
  next := Alike.bind
  lookup := alike_lookup
  bindName := alike_bindName
  createScope := alike_createScope

end Action

namespace Expr

open Lisplet.Action

variable [Host]

/-- Recording has no influence on an evaluation, by induction on the levels that are left. -/
theorem evalWithin_alike (limit : Int) (room : Nat) (depth : Int) (scope : Nat) (expr : Expr) :
    Alike (evalWithin { limit, tracing := .recorded } room depth scope expr)
      (evalWithin { limit, tracing := .off } room depth scope expr) := by
  induction room generalizing depth scope expr with
  | zero => exact alike_throw _
  | succ room deeper =>
    rw [evalWithin, evalWithin]
    split
    · exact alike_throw _
    · have traced : ∀ form value, Alike (trace .recorded ⟨depth, form, value⟩)
          (trace .off ⟨depth, form, value⟩) := fun _ _ _ _ same => ⟨rfl, same⟩
      exact alike_congruence.evalForm (deeper (depth + 1)) traced room scope expr

end Expr

/-! ### Whole evaluations -/

/-- What the steps of an evaluation at a depth below a limit look like. All are at depths from there up
to the limit, and from one to the next the depth drops by one at most. An expression that is no list has
none. If the evaluation of a list gives a value, its own step is the last one, all others are deeper, and
behind each of them the first step that is less deep is that of the application around it, one level
higher. If the evaluation of a list fails, none of the steps is at its depth. -/
structure InPostOrder (limit depth : Int) (expr : Expr) (outcome : Except Fault Expr)
    (steps : List Step) : Prop where
  depths : ∀ step ∈ steps, depth ≤ step.depth ∧ step.depth < limit
  drops : steps.IsChain Step.DropsByOne
  atom : (∀ items, expr ≠ .list items) → steps = []
  last : ∀ items value, expr = .list items → outcome = .ok value →
    ∃ inner, steps = inner ++ [⟨depth, expr, value⟩] ∧ ∀ step ∈ inner, depth < step.depth
  enclosed : ∀ items value, expr = .list items → outcome = .ok value →
    ∀ front step back, steps = front ++ step :: back → depth < step.depth →
      ∃ between outer rest, back = between ++ outer :: rest ∧ outer.depth = step.depth - 1 ∧
        (∀ other ∈ between, step.depth ≤ other.depth) ∧ outer.Encloses step
  failed : ∀ items fault, expr = .list items → outcome = .error fault →
    ∀ step ∈ steps, step.depth ≠ depth

theorem Recorded.inPostOrder {limit depth : Int} {expr value : Expr} {steps : List Step}
    (recorded : Recorded limit depth expr value steps) :
    InPostOrder limit depth expr (.ok value) steps where
  depths := recorded.postOrder.depths
  drops := recorded.postOrder.drops
  atom notList := by
    cases recorded with
    | atom => rfl
    | @list items => exact absurd rfl (notList items)
  last items other isList same := by
    cases same
    cases recorded with
    | atom notList => exact absurd isList (notList items)
    | list low below =>
      refine ⟨_, rfl, fun step member => ?_⟩
      have deeper := (below.depths step member).1
      omega
  enclosed _ _ _ _ _ _ _ split inside := recorded.postOrder.enclosed split inside
  failed _ _ _ same := nomatch same

theorem Abandoned.inPostOrder {limit depth : Int} {expr : Expr} {fault : Fault} {steps : List Step}
    (abandoned : Abandoned limit depth steps) (atom : (∀ items, expr ≠ .list items) → steps = []) :
    InPostOrder limit depth expr (.error fault) steps where
  depths step member := by
    have level := abandoned.depths step member
    omega
  drops := abandoned.drops
  atom := atom
  last _ _ _ same := nomatch same
  enclosed _ _ _ same := nomatch same
  failed _ _ _ _ step member level := by
    have deeper := (abandoned.depths step member).1
    omega

/-- **The record of an evaluation is a faithful post-order record.** In any world, recording changes
neither the value nor the error nor the scopes that an evaluation leaves; and the steps that it adds are
in post-order. -/
theorem Expr.eval_recorded_in_post_order [Host] (limit depth : Int) (scope : Nat) (expr : Expr)
    (world : World) :
    let outcome := (expr.eval { limit, tracing := .recorded } depth scope).run world
    let unrecorded := (expr.eval { limit, tracing := .off } depth scope).run world
    outcome.1 = unrecorded.1 ∧ outcome.2.store = unrecorded.2.store ∧
      ∃ added, outcome.2.steps.toList = world.steps.toList ++ added ∧
        InPostOrder limit depth expr outcome.1 added := by
  intro outcome unrecorded
  have adds : Action.Adds (expr.eval { limit, tracing := .recorded } depth scope)
      (Recorded limit depth expr) (Abandoned limit depth) := evalWithin_adds rfl _ depth scope expr
  obtain ⟨added, steps, ended⟩ := adds world
  obtain ⟨result, store⟩ := evalWithin_alike limit _ depth scope expr world world rfl
  refine ⟨result, store, added, steps, ?_⟩
  have atom : (∀ items, expr ≠ .list items) → added = [] := by
    intro notList
    have silent : outcome.2.steps = world.steps := evalWithin_silent _ _ scope notList world
    rw [silent] at steps
    exact List.self_eq_append_right.mp steps
  cases result : outcome.1 with
  | ok value =>
    rw [result] at ended
    exact ended.inPostOrder
  | error fault =>
    rw [result] at ended
    exact ended.inPostOrder atom

/-- The argument and the function body come before the call, both one level further down. -/
theorem Expr.nested_application_recorded :
    let square : Expr := .list [.identifier "*", .identifier "x", .identifier "x"]
    let sum : Expr := .list [.identifier "+", .integer 1, .integer 2]
    let call : Expr := .list [.identifier "f", sum]
    let store := Store.initial.bind 0 "f" (.closure ["x"] square 0 "f")
    let outcome := (call.eval { limit := 2, tracing := .recorded } 0 0).run { store }
    let steps : List Step := [⟨1, sum, .integer 3⟩, ⟨1, square, .integer 9⟩, ⟨0, call, .integer 9⟩]
    outcome.1 = .ok (.integer 9) ∧ outcome.2.steps.toList = steps ∧
      InPostOrder 2 0 call (.ok (.integer 9)) steps := by
  intro square sum call store outcome steps
  have value : outcome.1 = .ok (.integer 9) := by decide +kernel
  have recorded : outcome.2.steps.toList = steps := by decide +kernel
  obtain ⟨_, _, added, whole, inOrder⟩ := eval_recorded_in_post_order 2 0 0 call { store }
  obtain rfl : steps = added := recorded.symm.trans whole
  rw [value] at inOrder
  exact ⟨value, recorded, inOrder⟩

end Lisplet
