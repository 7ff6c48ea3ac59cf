import Lisplet.Proofs.Applications
import Lisplet.Terminal

/-!
Parameter lists mean what they say.

A parameter list is cut into words by one rule, each word is read as a token by another one, and the
body of a function, which may be one of the words, is read by a third. The rules agree: a word is a name
if it holds none of a few characters and does not begin like a numeral or a string. And since the names
are distinct, a name stands for the argument at its own position.

* `Text.Divides`: the words of a text, `Text.divides_iff`: `Text.words` gives them and nothing else.
* `isName_iff`: which texts are names, `isName_iff_of_solid`: which words are.
* `Builtin.paramNames_eq_ok_iff`, `Builtin.paramNames_eq_mismatch`: which parameter lists are accepted.
* `Scope.lookup_zip`: of distinct names, each stands for the argument at its own position.
* `Builtin.parameters_stand_for_their_arguments`: a function whose body is one of its parameters.
-/

namespace Lisplet

/-! ### Words -/

namespace Text

/-- Blanks and words in turn, where no word goes on behind its end. -/
inductive Divides : List Char → List String → Prop
  | blank {gap : List Char} (blank : ∀ char ∈ gap, isBlank char = true) : Divides gap []
  | word {gap word rest : List Char} {names : List String}
      (blank : ∀ char ∈ gap, isBlank char = true) (nonempty : word ≠ [])
      (solid : ∀ char ∈ word, isBlank char = false) (halts : Halts isBlank rest)
      (more : Divides rest names) : Divides (gap ++ word ++ rest) (String.ofList word :: names)

theorem wordsFrom_blank {gap : List Char} (blank : ∀ char ∈ gap, isBlank char = true)
    (rest : List Char) : wordsFrom [] (gap ++ rest) = wordsFrom [] rest := by
  induction gap with
  | nil => rfl
  | cons char gap previous =>
    obtain ⟨here, later⟩ := List.forall_mem_cons.mp blank
    rw [List.cons_append, wordsFrom, if_pos here]
    exact previous later

theorem wordsFrom_solid {word : List Char} (solid : ∀ char ∈ word, isBlank char = false)
    (begun rest : List Char) :
    wordsFrom begun (word ++ rest) = wordsFrom (word.reverse ++ begun) rest := by
  induction word generalizing begun with
  | nil => rfl
  | cons char word previous =>
    obtain ⟨here, later⟩ := List.forall_mem_cons.mp solid
    rw [List.cons_append, wordsFrom, here, List.reverse_cons, List.append_assoc]
    exact previous later (char :: begun)

/-- A word that does not go on is complete. -/
theorem wordsFrom_halts {begun rest : List Char} (nonempty : begun ≠ [])
    (halts : Halts isBlank rest) :
    wordsFrom begun rest = String.ofList begun.reverse :: wordsFrom [] rest := by
  have going : begun.isEmpty = false := by simpa using nonempty
  cases rest with
  | nil => simp [wordsFrom, going]
  | cons char rest => simp [wordsFrom, going, halts char rfl]

theorem Divides.wordsFrom_eq {chars : List Char} {names : List String}
    (divides : Divides chars names) : wordsFrom [] chars = names := by
  induction divides with
  | blank blank =>
    have skipped := wordsFrom_blank blank []
    rwa [List.append_nil] at skipped
  | @word gap word rest names blank nonempty solid halts _ previous =>
    rw [List.append_assoc, wordsFrom_blank blank, wordsFrom_solid solid, List.append_nil,
      wordsFrom_halts (List.reverse_ne_nil_iff.mpr nonempty) halts, List.reverse_reverse, previous]

/-- Another blank in front makes no difference. -/
theorem Divides.behind_blank {char : Char} {chars : List Char} {names : List String}
    (divides : Divides chars names) (blank : isBlank char = true) :
    Divides (char :: chars) names := by
  cases divides with
  | blank others => exact .blank (List.forall_mem_cons.mpr ⟨blank, others⟩)
  | word others nonempty solid halts more =>
    exact .word (List.forall_mem_cons.mpr ⟨blank, others⟩) nonempty solid halts more

/-- A word with nothing in front of it. -/
theorem Divides.first {word rest : List Char} {names : List String} (nonempty : word ≠ [])
    (solid : ∀ char ∈ word, isBlank char = false) (halts : Halts isBlank rest)
    (more : Divides rest names) : Divides (word ++ rest) (String.ofList word :: names) := by
  have none : ∀ char ∈ ([] : List Char), isBlank char = true := by simp
  exact .word none nonempty solid halts more

/-- What has been read of a word, and the characters that follow, are divided as they should be. The
induction is on what follows; a blank there completes the word if one was begun. -/
theorem divides_wordsFrom {begun : List Char} (solid : ∀ char ∈ begun.reverse, isBlank char = false)
    (chars : List Char) : Divides (begun.reverse ++ chars) (wordsFrom begun chars) := by
  induction chars generalizing begun with
  | nil =>
    cases begun with
    | nil => exact .blank (by simp)
    | cons last begun => exact .first (by simp) solid (by simp [Halts]) (.blank (by simp))
  | cons char chars previous =>
    rw [wordsFrom]
    cases blank : isBlank char with
    | true =>
      have rest : Divides chars (wordsFrom [] chars) := @previous [] (by simp)
      have more := rest.behind_blank blank
      cases begun with
      | nil => exact more
      | cons last begun => exact .first (by simp) solid (by simp [Halts, blank]) more
    | false =>
      have longer : ∀ other ∈ (char :: begun).reverse, isBlank other = false := by
        rw [List.reverse_cons, List.forall_mem_append]
        exact ⟨solid, by simpa using blank⟩
      have more := previous longer
      rwa [List.reverse_cons, List.append_assoc] at more

/-- `words` gives the words of a text, and a text is divided into words in no other way. -/
theorem divides_iff {text : String} {names : List String} :
    Divides text.toList names ↔ names = words text := by
  constructor
  · exact fun divides => divides.wordsFrom_eq.symm
  · rintro rfl
    have none : ∀ char ∈ ([] : List Char).reverse, isBlank char = false := by simp
    exact divides_wordsFrom none text.toList

/-- A word is not empty and has no blank in it. -/
theorem Divides.solid {chars : List Char} {names : List String} (divides : Divides chars names) :
    ∀ name ∈ names, name.toList ≠ [] ∧ ∀ char ∈ name.toList, isBlank char = false := by
  induction divides with
  | blank => simp
  | word _ nonempty solid _ _ later =>
    refine List.forall_mem_cons.mpr ⟨?_, later⟩
    rw [String.toList_ofList]
    exact ⟨nonempty, solid⟩

end Text

/-! ### Names -/

/-- The names of parameters are the names that can be read. -/
theorem isName_iff {text : String} : isName text = true ↔ IsNameText text.toList := by
  constructor
  · intro name
    obtain ⟨_, read, _⟩ := readsAs_of_isName name 0
    exact (Cursor.legible_of_readForm read).1 _ (List.mem_singleton_self _)
  · intro name
    have scanned : Scan.ofText text = Scan.cons _ _ := scan_of_lexes name.beginsToken (name.lexes 0)
    rw [Cursor.scan_of_blank (by simp)] at scanned
    simp [isName, scanned, Scan.cons]

/-- None of the brackets, and at the front neither a digit nor a quote. -/
def IsParameterWord (word : String) : Prop :=
  (∀ char ∈ word.toList, char ∉ "()[]\x7b\x7d".toList) ∧
    ∀ char ∈ word.toList.head?, char.isDigit = false ∧ char ≠ '"'

/-- Of the characters that end an identifier, only brackets are not blank. -/
theorem endsIdentifier_of_solid {char : Char} (solid : Text.isBlank char = false) :
    endsIdentifier char = false ↔ char ∉ "()[]\x7b\x7d".toList := by
  have notSpace : char ≠ ' ' := by rintro rfl; exact absurd solid (by decide)
  have notNewline : char ≠ '\n' := by rintro rfl; exact absurd solid (by decide)
  have notTab : char ≠ '\t' := by rintro rfl; exact absurd solid (by decide)
  simp [endsIdentifier, notSpace, notNewline, notTab]
  tauto

theorem isName_iff_of_solid {word : String} (nonempty : word.toList ≠ [])
    (solid : ∀ char ∈ word.toList, Text.isBlank char = false) :
    isName word = true ↔ IsParameterWord word := by
  have brackets : (∀ char ∈ word.toList, endsIdentifier char = false) ↔
      ∀ char ∈ word.toList, char ∉ "()[]\x7b\x7d".toList :=
    forall₂_congr fun char member => endsIdentifier_of_solid (solid char member)
  rw [isName_iff, IsNameText, IsParameterWord, brackets]
  constructor
  · rintro ⟨begins, _, inside⟩
    exact ⟨inside, begins⟩
  · rintro ⟨inside, begins⟩
    exact ⟨begins, nonempty, inside⟩

/-! ### Parameter lists -/

namespace Builtin

/-- The parameter lists that are accepted. -/
theorem paramNames_eq_ok_iff {params : String} {names : List String} :
    paramNames params = .ok names ↔
      names = Text.words params ∧ names.Nodup ∧ ∀ name ∈ names, IsParameterWord name := by
  have words : ∀ name ∈ Text.words params, isName name = true ↔ IsParameterWord name := by
    intro name member
    obtain ⟨nonempty, solid⟩ := (Text.divides_iff.mpr rfl).solid name member
    exact isName_iff_of_solid nonempty solid
  have all : (Text.words params).all isName = true ↔
      ∀ name ∈ Text.words params, IsParameterWord name := by
    rw [List.all_eq_true]
    exact forall₂_congr words
  unfold paramNames params?
  by_cases accepted : (Text.words params).all isName = true ∧ (Text.words params).Nodup
  · simp only [if_pos accepted, Except.ok.injEq]
    constructor
    · rintro rfl
      exact ⟨rfl, accepted.2, all.mp accepted.1⟩
    · exact fun ⟨same, _⟩ => same.symm
  · simp only [if_neg accepted]
    refine ⟨nofun, ?_⟩
    rintro ⟨rfl, distinct, each⟩
    exact (accepted ⟨all.mpr each, distinct⟩).elim

/-- All other parameter lists are refused in the same way. -/
theorem paramNames_eq_mismatch {params : String} (refused : ∀ names, paramNames params ≠ .ok names) :
    paramNames params = .error (.error
      { kind := .typeMismatch,
        args := [.text "fn", .text "distinct identifier parameter names",
          .expr (.string params)] }) := by
  unfold paramNames at refused ⊢
  cases accepted : params? params with
  | none => rfl
  | some names => exact absurd (by rw [accepted]) (refused names)

/-- `fn` makes a function of a parameter list and a text of one form. -/
theorem call_function_of_readsAs {room scope : Nat} {params body : String} {names : List String}
    {form : Expr} (accepted : paramNames params = .ok names)
    (reads : form.ReadsAs defaultLimit body) (world : World) :
    (Builtin.function.call room scope [.string params, .string body]).run world =
      (.ok (.closure names form scope Expr.anonymous), world) := by
  obtain ⟨after, read, ended⟩ := reads
  simp only [call, makeClosure, expectString, pure_bind, readBody, read, ended, if_true, accepted]
  rfl

end Builtin

/-! ### Arguments -/

/-- A position in a list is one in any list of the same length. -/
theorem exists_getElem?_of_length_eq {names : List String} {args : List Expr}
    (matching : args.length = names.length) {position : Nat} {name : String}
    (named : names[position]? = some name) : ∃ value, args[position]? = some value := by
  obtain ⟨inside, _⟩ := List.getElem?_eq_some_iff.mp named
  rw [← matching] at inside
  exact ⟨_, List.getElem?_eq_getElem inside⟩

/-- Of distinct names that are bound one after the other, each gets the value at its own position. -/
theorem Scope.lookup_zip {names : List String} {args : List Expr} (distinct : names.Nodup)
    (matching : args.length = names.length) {position : Nat} {name : String}
    (named : names[position]? = some name) :
    (names.zip args).reverse.lookup name = args[position]? := by
  induction names generalizing args position with
  | nil => cases named
  | cons first names previous =>
    obtain ⟨value, args, rfl⟩ : ∃ value others, args = value :: others :=
      List.exists_cons_of_length_pos (by simp [matching])
    obtain ⟨fresh, distinct⟩ := List.nodup_cons.mp distinct
    have fewer : args.length = names.length := Nat.succ.inj matching
    rw [List.zip_cons_cons, List.reverse_cons, List.lookup_append]
    cases position with
    | zero =>
      cases named
      have later : (names.zip args).reverse.lookup name = none := by
        rw [List.lookup_eq_none_iff]
        intro binding member
        have bound : binding.1 ∈ names := (List.of_mem_zip (List.mem_reverse.mp member)).1
        simpa using fun same : name = binding.1 => fresh (same ▸ bound)
      simp [later]
    | succ position =>
      obtain ⟨other, given⟩ := exists_getElem?_of_length_eq fewer named
      rw [previous distinct fewer named, List.getElem?_cons_succ, given, Option.some_or]

/-- In the scope of a call, the names of the parameters stand for the arguments. -/
theorem World.lookup?_entered {names : List String} {args : List Expr} (distinct : names.Nodup)
    (matching : args.length = names.length) {position : Nat} {name : String} {value : Expr}
    (named : names[position]? = some name) (given : args[position]? = some value)
    (world : World) (home : Nat) :
    (world.entered names args home).store.lookup? world.store.size name = some value := by
  have bound : ((world.entered names args home).store.scope? world.store.size).bind
      (·.find? name) = some value := by
    rw [entered, Store.scope?_create_size, Option.bind_some, Scope.find?_bindAll,
      Scope.lookup_zip distinct matching named, given, Option.some_or]
  rw [Store.lookup?, Store.chain]
  split
  · rw [List.findSome?_singleton, bound]
  · split
    · rw [List.findSome?_cons, bound]
    · rw [List.findSome?_singleton, bound]

namespace Expr

/-- A function that gives back the argument at a position, and refuses any other number of arguments. It
does so under any label, in any calling scope, and at any depth that has another one below it. -/
structure GivesArgument [Host] (names : List String) (body : Expr) (home position : Nat) :
    Prop where
  gives : ∀ (settings : Settings) (depth : Int) (caller : Nat) (label : String) (args : List Expr)
    (world : World), args.length = names.length → depth < settings.limit →
      ∃ value, args[position]? = some value ∧
        (apply settings depth caller (.closure names body home label) args).run world =
          (.ok value, world.entered names args home)
  refuses : ∀ (settings : Settings) (depth : Int) (caller : Nat) (label : String) (args : List Expr)
    (world : World), args.length ≠ names.length →
      (apply settings depth caller (.closure names body home label) args).run world =
        (.error (.error
          { kind := .arityMismatch,
            args := [.text label, .number names.length, .number args.length] }), world)

/-- A body that is one of distinct parameters gives the argument at its position. -/
theorem givesArgument_of_identifier [Host] {names : List String} (distinct : names.Nodup)
    {position : Nat}
    {name : String} (named : names[position]? = some name) (home : Nat) :
    GivesArgument names (.identifier name) home position where
  gives := by
    intro settings depth caller label args world matching below
    obtain ⟨value, given⟩ := exists_getElem?_of_length_eq matching named
    obtain ⟨room, levels⟩ := Nat.exists_eq_add_of_lt Host.stackLevels_pos
    refine ⟨value, given, ?_⟩
    rw [apply, run_applyWith_closure matching, eval, levels, Nat.zero_add,
      evalWithin_below (Int.add_one_le_of_lt below)]
    exact Action.run_lookup_eq_ok_iff.mpr (world.lookup?_entered distinct matching named given home)
  refuses := by
    intro settings depth caller label args world mismatching
    rw [apply, applyWith, if_pos mismatching]
    rfl

end Expr

/-- **Parameter lists mean what they say.** The words of a text are what is between its blanks. They are
accepted as parameters exactly if they are distinct and each of them holds no bracket and begins with
neither a digit nor a quote; all other texts are refused as a wrong argument of `fn`. If they are accepted,
and any of them is taken as the text of a body, then `fn` makes a function that gives back the argument at
the position of that parameter. -/
theorem Builtin.parameters_stand_for_their_arguments [Host] (params : String) :
    (∀ names, Text.Divides params.toList names ↔ names = Text.words params) ∧
    (∀ names, paramNames params = .ok names ↔
      names = Text.words params ∧ names.Nodup ∧ ∀ name ∈ names, IsParameterWord name) ∧
    ((∀ names, paramNames params ≠ .ok names) →
      paramNames params = .error (.error
        { kind := .typeMismatch,
          args := [.text "fn", .text "distinct identifier parameter names",
            .expr (.string params)] })) ∧
    ∀ names, paramNames params = .ok names → ∀ (position : Nat) (name : String),
      names[position]? = some name → ∀ (room home : Nat) (world : World),
        (Builtin.function.call room home [.string params, .string name]).run world =
          (.ok (.closure names (.identifier name) home Expr.anonymous), world) ∧
        Expr.GivesArgument names (.identifier name) home position := by
  refine ⟨fun _ => Text.divides_iff, fun _ => paramNames_eq_ok_iff, paramNames_eq_mismatch, ?_⟩
  intro names accepted position name named room home world
  obtain ⟨rfl, distinct, parameters⟩ := paramNames_eq_ok_iff.mp accepted
  have member : name ∈ Text.words params := List.mem_of_getElem? named
  obtain ⟨nonempty, solid⟩ := (Text.divides_iff.mpr rfl).solid name member
  have isName : isName name = true := (isName_iff_of_solid nonempty solid).mpr (parameters name member)
  exact ⟨call_function_of_readsAs accepted (readsAs_of_isName isName defaultLimit) world,
    Expr.givesArgument_of_identifier distinct named home⟩

/-- Two parameters between blanks of several kinds. The function whose body is the second one is given two
numbers, and then only one. -/
theorem Builtin.parameters_stand_for_their_arguments_second :
    let params := " x\u2003y\u001C"
    let names := ["x", "y"]
    let second : Expr := .closure names (.identifier "y") 0 "second"
    let world : World := { store := Store.initial }
    paramNames params = .ok names ∧
      (Builtin.function.call 332 0 [.string params, .string "y"]).run world =
        (.ok (.closure names (.identifier "y") 0 Expr.anonymous), world) ∧
      (Expr.apply { limit := 1 } 0 0 second [.integer 7, .integer 8]).run world =
        (.ok (.integer 8), world.entered names [.integer 7, .integer 8] 0) ∧
      (Expr.apply { limit := 1 } 0 0 second [.integer 7]).run world =
        (.error (.error
          { kind := .arityMismatch, args := [.text "second", .number 2, .number 1] }), world) := by
  intro params names second world
  obtain ⟨_, accepts, _, makes⟩ := parameters_stand_for_their_arguments params
  have accepted : paramNames params = .ok names := by decide +kernel
  obtain ⟨made, second⟩ := makes names accepted 1 "y" rfl 332 0 world
  obtain ⟨value, given, applied⟩ := second.gives { limit := 1 } 0 0 "second" [.integer 7, .integer 8]
    world rfl (by decide)
  cases given
  exact ⟨accepted, made, applied,
    second.refuses { limit := 1 } 0 0 "second" [.integer 7] world (by decide)⟩

/-- A word that is no name, two words that are the same, and a bracket. -/
example :
    (["1", "\"a\"", "x y x", "x [y]"].map fun params => (params? params).isSome) =
      [false, false, false, false] := by
  decide +kernel

end Lisplet
