import Lisplet.Form.Params
import Lisplet.Proofs.Grammar

/-!
What forms are made of.

A form that was read has only literals and identifiers for leaves. Its integers have 32 bits, its
floats are finite and have no sign, and it holds no function.

* `Expr.AllLeaves`: a property of every part of an expression that is not a list.
* `Expr.IsForm`: an expression with the leaves of a form.
* `Derives.isForm`: whatever the grammar derives is a form.
* `Reading.isForm_of_flawless`, `Cursor.isForm_of_readForm`: so is whatever is read.
* `readsAs_of_isName`: the names that parameters may have are read as identifiers.
-/

namespace Lisplet

/-! ### Numerals with a point -/

theorem Format.round_le_infinity (format : Format) (numerator denominator : Nat) :
    format.round numerator denominator ≤ format.infinity := by
  unfold round
  exact Nat.min_le_left _ _

theorem Floating.isFinite_of_le {format : Format} {number : Floating format}
    (atMost : number.code ≤ format.infinity) (notInfinite : number.isInfinite = false) :
    number.isFinite = true := by
  simp only [isInfinite, decide_eq_false_iff_not] at notInfinite
  simp only [isFinite, decide_eq_true_eq]
  omega

/-- A finite number that is rounded to a 32-bit one stays finite. -/
theorem Double.isFinite_of_toSingle? {number : Double} {single : Single}
    (finite : number.isFinite = true) (rounded : Double.toSingle? number = some single) :
    single.isFinite = true := by
  simp only [Floating.isFinite, decide_eq_true_eq] at finite
  have notNaN : number.isNaN = false := by
    simp only [Floating.isNaN, decide_eq_false_iff_not]
    omega
  have notInfinite : number.isInfinite = false := by
    simp only [Floating.isInfinite, decide_eq_false_iff_not]
    omega
  simp only [Double.toSingle?, notInfinite, Bool.not_false, Bool.and_true] at rounded
  split at rounded
  · cases rounded
  · rename_i bounded
    cases rounded
    refine Floating.isFinite_of_le ?_ (by simpa using bounded)
    simp only [Double.toSingle, notNaN, notInfinite, Bool.false_eq_true, if_false]
    exact Format.round_le_infinity _ _ _

theorem Single.isFinite_of_ofNumeral? {whole fraction : List Char} {number : Single}
    (denotes : Single.ofNumeral? whole fraction = some number) : number.isFinite = true := by
  simp only [Single.ofNumeral?] at denotes
  split at denotes
  · cases denotes
  · rename_i bounded
    refine Double.isFinite_of_toSingle? ?_ denotes
    exact Floating.isFinite_of_le (Format.round_le_infinity _ _ _) (by simpa using bounded)

theorem isFinite_of_numeral? {text : String} {number : Single}
    (denotes : numeral? text = some (.float number)) : number.isFinite = true := by
  simp only [numeral?] at denotes
  split at denotes
  · simp only [integerNumeral?, Expr.ofInt?] at denotes
    split at denotes
    · cases denotes
    · split at denotes <;> cases denotes
  · split at denotes
    · cases denotes
    · obtain ⟨found, denoted, same⟩ := Option.map_eq_some_iff.mp denotes
      cases same
      exact Single.isFinite_of_ofNumeral? denoted

/-! ### Leaves -/

namespace Expr

/-- Every part of an expression that is not a list has a property. -/
def AllLeaves (holds : Expr → Prop) (expr : Expr) : Prop :=
  ∀ leaf ∈ expr.leaves, holds leaf

theorem allLeaves_list_iff {holds : Expr → Prop} {items : List Expr} :
    AllLeaves holds (.list items) ↔ ∀ item ∈ items, item.AllLeaves holds := by
  simp only [AllLeaves, leaves, mem_leavesAll]
  constructor
  · intro all item member leaf inside
    exact all leaf ⟨item, member, inside⟩
  · rintro all leaf ⟨item, member, inside⟩
    exact all item member leaf inside

/-- An expression that has a property which no list has is its own only leaf. -/
theorem allLeaves_of_holds {holds : Expr → Prop} (noList : ∀ items, ¬ holds (.list items))
    {expr : Expr} (given : holds expr) : expr.AllLeaves holds := by
  cases expr with
  | list items => exact absurd given (noList items)
  | _ =>
    intro leaf member
    rwa [List.mem_singleton.mp member]

theorem AllLeaves.imp {holds weaker : Expr → Prop} {expr : Expr} (all : expr.AllLeaves holds)
    (weaken : ∀ leaf, holds leaf → weaker leaf) : expr.AllLeaves weaker :=
  fun leaf member => weaken leaf (all leaf member)

/-- Integers of 32 bits. -/
def IsInt32 (value : Int) : Prop :=
  -2147483648 ≤ value ∧ value ≤ 2147483647

/-- Finite 32-bit numbers without a sign. -/
def IsUnsigned (value : Single) : Prop :=
  value.isFinite = true ∧ value.negative = false

/-- The leaves of forms: literals and identifiers, but no functions. -/
def IsLiteral : Expr → Prop
  | .identifier _ => True
  | .string _ => True
  | .integer value => IsInt32 value
  | .float value => IsUnsigned value
  | .list _ => False
  | .native _ => False
  | .closure .. => False

/-- An expression with the leaves of a form. -/
def IsForm (expr : Expr) : Prop :=
  expr.AllLeaves IsLiteral

theorem isForm_of_isLiteral {expr : Expr} (literal : expr.IsLiteral) : expr.IsForm :=
  allLeaves_of_holds (fun _ => id) literal

end Expr

/-! ### What is read -/

theorem Token.isLiteral_of_atom? {token : Token} {item : Expr} (denotes : token.atom? = some item) :
    item.IsLiteral := by
  unfold Token.atom? at denotes
  cases shape : token.shape with
  | identifier =>
    simp only [shape, Option.some.injEq] at denotes
    subst denotes
    trivial
  | string =>
    simp only [shape, Option.some.injEq] at denotes
    subst denotes
    trivial
  | number =>
    simp only [shape] at denotes
    obtain ⟨number, small, rfl⟩ | ⟨number, unsigned, rfl⟩ := numeral?_eq_some denotes
    · exact ⟨by omega, by omega⟩
    · exact ⟨isFinite_of_numeral? denotes, unsigned⟩
  | _ => simp [shape] at denotes

theorem Derives.isForm {tokens : List Token} {forms : List Expr} (derives : Derives tokens forms) :
    ∀ form ∈ forms, form.IsForm := by
  induction derives with
  | nothing => simp
  | atom denotes _ later =>
    rw [List.forall_mem_cons]
    exact ⟨Expr.isForm_of_isLiteral (Token.isLiteral_of_atom? denotes), later⟩
  | list _ _ _ _ inside later =>
    rw [List.forall_mem_cons]
    exact ⟨Expr.allLeaves_list_iff.mpr inside, later⟩

theorem Reading.isForm_of_flawless {limit : Int} {code : String}
    (read : (ofText limit code).flaw = none) : ∀ form ∈ (ofText limit code).forms, form.IsForm :=
  (derives_of_flawless read).2.1.isForm

/-- A form is complete as soon as the tokens up to there make it, with all lists closed. -/
theorem Nest.feedAll_of_feedOne {limit : Int} {nest : Nest} {tokens : List Token} {form : Expr}
    {token : Token} (completed : nest.feedOne limit tokens = .complete form token) :
    ∃ taken rest older, tokens = taken ++ rest ∧
      nest.feedAll limit taken = (⟨form :: older, []⟩, none) := by
  induction tokens generalizing nest with
  | nil => cases completed
  | cons first tokens previous =>
    rw [feedOne] at completed
    cases step : nest.feed limit first with
    | error flaw => simp [step] at completed
    | ok fed =>
      obtain ⟨items, outer⟩ := fed
      simp only [step] at completed
      split at completed
      · cases completed
        rename_i older
        refine ⟨[token], tokens, older, rfl, ?_⟩
        rw [feedAll, step]
        rfl
      · obtain ⟨taken, rest, older, rfl, made⟩ := previous completed
        refine ⟨first :: taken, rest, older, rfl, ?_⟩
        rw [feedAll, step]
        exact made

theorem Cursor.isForm_of_readForm {limit : Int} {cursor after : Cursor} {form : Expr}
    (read : cursor.readForm limit = (.ok form, after)) : form.IsForm := by
  unfold readForm at read
  cases run : Nest.feedOne limit {} cursor.scan.tokens with
  | complete found token =>
    simp only [run, Prod.mk.injEq, Except.ok.injEq] at read
    obtain ⟨rfl, _⟩ := read
    obtain ⟨taken, rest, older, _, made⟩ := Nest.feedAll_of_feedOne run
    have built : Nest.Built ([] ++ taken) ⟨found :: older, []⟩ := Nest.Built.empty.of_feedAll made
    exact built.derives.isForm found (by simp)
  | flawed flaw token => simp [run] at read
  | unfinished => simp [run] at read

/-! ### Names of parameters -/

theorem readsAs_of_isName {text : String} (name : isName text = true) (limit : Int) :
    Expr.ReadsAs limit text (.identifier text) := by
  simp only [isName] at name
  split at name
  · rename_i token tokens
    simp only [Bool.and_eq_true, decide_eq_true_eq] at name
    obtain ⟨⟨flawless, shape⟩, spelled⟩ := name
    refine Cursor.readForm_of_feedAll (Option.isNone_iff_eq_none.mp flawless) ?_
    have denotes : token.atom? = some (.identifier text) := by
      simp [Token.atom?, shape, spelled]
    have scanned : (Cursor.ofText text).scan.tokens = [token] := tokens
    rw [scanned, Nest.feedAll, (Nest.Feeds.atom denotes).feed_eq]
    rfl
  · cases name

end Lisplet
