import Lisplet.Expr.Nesting
import Lisplet.Proofs.Joining
import Lisplet.Proofs.NumberTexts

/-!
The forms that can be read.

Whatever the text and the limit, a form that was read is made of lists and of atoms that the printer
writes as they are read, and none of its lists is nested deeper than the limit.

* `Expr.leaves`: the atoms and functions of an expression.
* `Expr.Legible`: every leaf is one that can be read.
* `HasRoom`: so many levels of lists fit below a depth.
* `Nest.Sound`: the invariant of reading: all items are legible and fit where they stand.
* `Nest.sound_of_feeds`: one token.
* `Nest.sound_of_feedOne`: a whole run.
* `Cursor.legible_of_readForm`: what was read is legible and within the limit.
-/

namespace Lisplet

/-! ### Leaves and levels -/

namespace Expr

mutual

/-- The parts of an expression that are not lists. -/
def leaves : Expr → List Expr
  | .list items => leavesAll items
  | .identifier name => [.identifier name]
  | .string text => [.string text]
  | .integer value => [.integer value]
  | .float value => [.float value]
  | .native builtin => [.native builtin]
  | .closure params body scope name => [.closure params body scope name]

/-- The parts of several expressions that are not lists. -/
def leavesAll : List Expr → List Expr
  | [] => []
  | first :: rest => leaves first ++ leavesAll rest

end

theorem mem_leavesAll {leaf : Expr} {items : List Expr} :
    leaf ∈ leavesAll items ↔ ∃ item ∈ items, leaf ∈ item.leaves := by
  induction items with
  | nil => simp [leavesAll]
  | cons first rest previous => simp [leavesAll, previous]

/-- A leaf that can be read: a name that is one token, a string without a quote, a 32-bit integer
without a sign, any float, but no function. -/
def LegibleLeaf : Expr → Prop
  | .identifier name => IsNameText name.toList
  | .string text => '"' ∉ text.toList
  | .integer value => 0 ≤ value ∧ value ≤ 2147483647
  | .float _ => True
  | .list _ => False
  | .native _ => False
  | .closure .. => False

instance instDecidableLegibleLeaf : (leaf : Expr) → Decidable (LegibleLeaf leaf)
  | .identifier name => inferInstanceAs (Decidable (IsNameText name.toList))
  | .string text => inferInstanceAs (Decidable ('"' ∉ text.toList))
  | .integer value => inferInstanceAs (Decidable (0 ≤ value ∧ value ≤ 2147483647))
  | .float _ => .isTrue trivial
  | .list _ => .isFalse id
  | .native _ => .isFalse id
  | .closure .. => .isFalse id

/-- Every leaf can be read. -/
def Legible (expr : Expr) : Prop :=
  ∀ leaf ∈ expr.leaves, LegibleLeaf leaf

instance instDecidableLegible (expr : Expr) : Decidable expr.Legible :=
  List.decidableBAll LegibleLeaf expr.leaves

theorem legible_list_iff {items : List Expr} :
    Legible (.list items) ↔ ∀ item ∈ items, item.Legible := by
  simp only [Legible, leaves, mem_leavesAll]
  constructor
  · intro legible item member leaf inside
    exact legible leaf ⟨item, member, inside⟩
  · rintro legible leaf ⟨item, member, inside⟩
    exact legible item member leaf inside

/-- An atom that can be read is legible, and has no lists. -/
theorem legible_of_legibleLeaf {expr : Expr} (legible : LegibleLeaf expr) :
    expr.Legible ∧ expr.nesting = 0 := by
  cases expr with
  | list items => exact legible.elim
  | native builtin => exact legible.elim
  | closure params body scope name => exact legible.elim
  | _ => exact ⟨fun leaf member => by rwa [List.mem_singleton.mp member], rfl⟩

end Expr

/-- So many levels of lists fit below a depth. Without any list there is nothing to fit. -/
def HasRoom (limit : Int) (depth levels : Nat) : Prop :=
  levels = 0 ∨ (depth : Int) + levels ≤ limit

theorem HasRoom.of_le {limit : Int} {depth levels fewer : Nat} (room : HasRoom limit depth levels)
    (le : fewer ≤ levels) : HasRoom limit depth fewer := by
  unfold HasRoom at *
  omega

/-- No list of an expression is nested deeper than the limit. -/
def Expr.FitsWithin (limit : Int) (expr : Expr) : Prop :=
  HasRoom limit 0 expr.nesting

/-! ### Tokens that were read -/

/-- A text between quotes has no quote in it, since no escape stands for one. -/
theorem Spells.quote_not_mem {raw text : List Char} (spelled : Spells raw text) : '"' ∉ text := by
  induction spelled with
  | nil => simp
  | @plain char raw text notQuote notSlash _ previous =>
    intro member
    obtain same | inside := List.mem_cons.mp member
    · exact notQuote same.symm
    · exact previous inside
  | @escaped code char raw text stands _ previous =>
    intro member
    obtain same | inside := List.mem_cons.mp member
    · subst same
      unfold unescape? at stands
      split at stands
      · cases stands
      · split at stands
        · cases stands
        · split at stands <;> cases stands
    · exact previous inside

/-- What a token stands for can be read. -/
def Token.Lawful (token : Token) : Prop :=
  ∀ item, token.atom? = some item → item.LegibleLeaf

theorem Lexes.lawful {offset : Nat} {rest : List Char} {token : Token} {after : Cursor}
    (lexes : Lexes offset rest (.ok token) after) : token.Lawful := by
  intro item denotes
  cases lexes with
  | leftParen tail => cases denotes
  | rightParen tail => cases denotes
  | @number body tail numeral halts =>
    obtain ⟨number, fits, rfl⟩ | ⟨number, _, rfl⟩ := numeral?_eq_some denotes
    · exact ⟨by omega, by omega⟩
    · trivial
  | @string raw text tail spelled =>
    cases denotes
    show '"' ∉ (String.ofList text).toList
    rw [String.toList_ofList]
    exact spelled.quote_not_mem
  | @identifier body tail name halts =>
    cases denotes
    show IsNameText (String.ofList body).toList
    rw [String.toList_ofList]
    exact name

theorem Scans.lawful {cursor : Cursor} {scan : Scan} (scans : Scans cursor scan) :
    ∀ token ∈ scan.tokens, token.Lawful := by
  induction scans with
  | ended => simp
  | flawed => simp
  | @token offset blanks rest token after scan blank begins lexes more previous =>
    intro other member
    obtain rfl | member := List.mem_cons.mp member
    · exact lexes.lawful
    · exact previous other member

/-! ### The invariant of reading -/

/-- The items of some sequences, the innermost first, can be read and fit where they stand, and the
lists that hold them are within the limit. -/
def SequencesSound (limit : Int) : List (List Expr) → Prop
  | [] => True
  | items :: outer =>
    (∀ item ∈ items, item.Legible ∧ HasRoom limit outer.length item.nesting) ∧
      HasRoom limit 0 outer.length ∧ SequencesSound limit outer

namespace Nest

variable {limit : Int}

/-- All items of a nest can be read and fit where they stand. -/
def Sound (limit : Int) (nest : Nest) : Prop :=
  SequencesSound limit (nest.items :: nest.outer)

theorem sound_empty : Sound limit {} :=
  ⟨by simp, .inl rfl, trivial⟩

theorem Sound.push {nest : Nest} (sound : nest.Sound limit) {item : Expr} (legible : item.Legible)
    (room : HasRoom limit nest.depth item.nesting) : (nest.push item).Sound limit := by
  refine ⟨fun other member => ?_, sound.2⟩
  obtain rfl | older := List.mem_cons.mp member
  · exact ⟨legible, room⟩
  · exact sound.1 other older

theorem Sound.openList {nest : Nest} (sound : nest.Sound limit)
    (room : (nest.depth : Int) + 1 ≤ limit) : nest.openList.Sound limit := by
  refine ⟨by simp [Nest.openList], .inr ?_, sound⟩
  simp only [Nest.openList, List.length_cons]
  unfold depth at room
  omega

/-- A list that is closed goes one level deeper than its items, and that level was within the limit
when it was opened. -/
theorem Sound.closeList {nest closed : Nest} (sound : nest.Sound limit)
    (closing : nest.closeList? = some closed) : closed.Sound limit := by
  obtain ⟨items, outer⟩ := nest
  cases outer with
  | nil => cases closing
  | cons around outer =>
    cases closing
    obtain ⟨inner, levels, rest⟩ := sound
    have legible : Expr.Legible (.list items.reverse) := by
      rw [Expr.legible_list_iff]
      intro item member
      exact (inner item (List.mem_reverse.mp member)).1
    -- Also a list without lists in it takes one level, which `levels` has room for.
    have room : HasRoom limit outer.length (Expr.nesting (.list items.reverse)) := by
      right
      have deepest : Expr.nestingAll items.reverse ≤ (limit - (outer.length + 1)).toNat := by
        rw [Expr.nestingAll_le_iff]
        intro item member
        have fits := (inner item (List.mem_reverse.mp member)).2
        simp only [HasRoom, List.length_cons] at fits
        omega
      simp only [HasRoom, List.length_cons] at levels
      rw [Expr.nesting]
      omega
    have outside : Sound limit ⟨around, outer⟩ := rest
    exact outside.push legible room

/-- One token. -/
theorem sound_of_feeds {nest fed : Nest} {token : Token} (sound : nest.Sound limit)
    (lawful : token.Lawful) (rule : Feeds limit nest token (.ok fed)) : fed.Sound limit := by
  cases rule with
  | atom denotes =>
    obtain ⟨legible, none⟩ := Expr.legible_of_legibleLeaf (lawful _ denotes)
    exact sound.push legible (.inl none)
  | opens shape room => exact sound.openList room
  | closes shape closing => exact sound.closeList closing

/-- A whole run: the form that is completed first can be read and is within the limit. -/
theorem sound_of_feedOne {nest : Nest} {tokens : List Token} {form : Expr} {token : Token}
    (sound : nest.Sound limit) (lawful : ∀ token ∈ tokens, token.Lawful)
    (completed : nest.feedOne limit tokens = .complete form token) :
    form.Legible ∧ form.FitsWithin limit := by
  induction tokens generalizing nest with
  | nil => cases completed
  | cons first tokens previous =>
    rw [feedOne] at completed
    cases step : nest.feed limit first with
    | error flaw => simp [step] at completed
    | ok fed =>
      have soundThen :=
        sound_of_feeds sound (lawful first List.mem_cons_self) (feed_eq_iff.mp step)
      have lawfulThen : ∀ token ∈ tokens, token.Lawful :=
        fun other member => lawful other (List.mem_cons_of_mem _ member)
      obtain ⟨items, outer⟩ := fed
      simp only [step] at completed
      split at completed
      · cases completed
        exact soundThen.1 form List.mem_cons_self
      · exact previous soundThen lawfulThen completed

end Nest

/-- What was read from a text can be read again, and none of its lists is nested deeper than the
limit. -/
theorem Cursor.legible_of_readForm {limit : Int} {cursor after : Cursor} {form : Expr}
    (read : cursor.readForm limit = (.ok form, after)) :
    form.Legible ∧ form.FitsWithin limit := by
  unfold readForm at read
  cases run : Nest.feedOne limit {} cursor.scan.tokens with
  | complete found token =>
    simp only [run, Prod.mk.injEq, Except.ok.injEq] at read
    obtain ⟨rfl, _⟩ := read
    exact Nest.sound_of_feedOne Nest.sound_empty (scans_scan cursor).lawful run
  | flawed flaw token => simp [run] at read
  | unfinished => simp [run] at read

end Lisplet
