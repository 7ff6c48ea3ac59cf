import Lisplet.Proofs.RoundTrip

/-!
The grammar of forms.

`form ::= atom | "(" form* ")"`. Reading a text succeeds exactly if its tokens have no flaw, derive
forms by this grammar, and no list of these is nested deeper than the limit; then it gives these
forms, and tokens never derive two different ones.

* `Derives`: the forms that a token sequence derives.
* `Derives.feedAll`: derived forms are added to any nest that has room for them.
* `Nest.Built`: the tokens that a nest was built from, read off the nest by the grammar.
* `Nest.Built.of_feeds`, `Nest.Built.of_feedAll`: one token, and a whole run.
* `Reading.accepts_exactly_grammar`: what is read is what the grammar derives within the limit.
-/

namespace Lisplet

/-- The forms that a token sequence derives, by `form ::= atom | "(" form* ")"`. -/
inductive Derives : List Token → List Expr → Prop
  | nothing : Derives [] []
  | atom {token : Token} {item : Expr} {more : List Token} {forms : List Expr}
      (denotes : token.atom? = some item) (rest : Derives more forms) :
      Derives (token :: more) (item :: forms)
  | list {left right : Token} {inner more : List Token} {items forms : List Expr}
      (opening : left.shape = .leftParen) (closing : right.shape = .rightParen)
      (inside : Derives inner items) (rest : Derives more forms) :
      Derives (left :: (inner ++ right :: more)) (.list items :: forms)

namespace Derives

theorem append {first second : List Token} {forms others : List Expr}
    (derives : Derives first forms) (following : Derives second others) :
    Derives (first ++ second) (forms ++ others) := by
  induction derives with
  | nothing => exact following
  | atom denotes _ later => exact .atom denotes later
  | list opening closing inside _ _ later =>
    rw [List.cons_append, List.append_assoc, List.cons_append]
    exact .list opening closing inside later

theorem atom_single {token : Token} {item : Expr} (denotes : token.atom? = some item) :
    Derives [token] [item] :=
  .atom denotes .nothing

theorem list_single {left right : Token} {inner : List Token} {items : List Expr}
    (opening : left.shape = .leftParen) (closing : right.shape = .rightParen)
    (inside : Derives inner items) : Derives (left :: inner ++ [right]) [.list items] :=
  .list opening closing inside .nothing

/-- Derived forms are added to any nest that has room for them. -/
theorem feedAll {limit : Int} {tokens : List Token} {forms : List Expr}
    (derives : Derives tokens forms) :
    ∀ nest : Nest, HasRoom limit nest.depth (Expr.nestingAll forms) →
      nest.feedAll limit tokens = (nest.pushAll forms, none) := by
  induction derives with
  | nothing => intro nest _; rfl
  | @atom token item more forms denotes _ later =>
    intro nest room
    have fed : nest.feed limit token = .ok (nest.push item) := (Nest.Feeds.atom denotes).feed_eq
    have roomLater : HasRoom limit (nest.push item).depth (Expr.nestingAll forms) :=
      room.of_le (Nat.le_max_right _ _)
    rw [Nest.feedAll, fed]
    show (nest.push item).feedAll limit more = _
    rw [later (nest.push item) roomLater]
    exact congrArg (·, none) (nest.pushAll_append [item] forms).symm
  | @list left right inner more items forms opening closing _ _ within later =>
    intro nest room
    have roomList : HasRoom limit nest.depth (Expr.nestingAll items + 1) :=
      room.of_le (Nat.le_max_left _ _)
    have roomLater : HasRoom limit nest.depth (Expr.nestingAll forms) :=
      room.of_le (Nat.le_max_right _ _)
    unfold HasRoom at roomList
    have roomInside : HasRoom limit nest.openList.depth (Expr.nestingAll items) := by
      unfold HasRoom
      rw [Nest.depth_openList]
      omega
    have taken : nest.feedAll limit (left :: (inner ++ [right])) =
        (nest.push (.list items), none) :=
      Nest.feedAll_parenthesized opening closing (by omega) (within nest.openList roomInside)
    have split : left :: (inner ++ right :: more) = left :: (inner ++ [right]) ++ more := by simp
    rw [split, Nest.feedAll_append, taken]
    show (nest.push (.list items)).feedAll limit more = _
    rw [later (nest.push (.list items)) roomLater]
    exact congrArg (·, none) (nest.pushAll_append [.list items] forms).symm

/-- Tokens derive at most one sequence of forms: with a limit that both have room in, a nest takes
the tokens in in one way. -/
theorem unique {tokens : List Token} {forms others : List Expr} (first : Derives tokens forms)
    (second : Derives tokens others) : forms = others := by
  let limit : Int := ((Expr.nestingAll forms + Expr.nestingAll others : Nat) : Int)
  have roomFirst : HasRoom limit (Nest.depth {}) (Expr.nestingAll forms) := by
    right
    simp only [Nest.depth, List.length_nil, limit]
    omega
  have roomSecond : HasRoom limit (Nest.depth {}) (Expr.nestingAll others) := by
    right
    simp only [Nest.depth, List.length_nil, limit]
    omega
  have same := (first.feedAll {} roomFirst).symm.trans (second.feedAll {} roomSecond)
  simpa [Nest.pushAll] using same

end Derives

/-! ### The tokens of a nest -/

namespace Nest

variable {limit : Int}

/-- The tokens that a nest was built from: those that derive its complete forms and, for every list
that is open, its parenthesis and the tokens that derive its items. -/
inductive Built : List Token → Nest → Prop
  | closed {tokens : List Token} {items : List Expr} (complete : Derives tokens items.reverse) :
      Built tokens ⟨items, []⟩
  | opened {before inner : List Token} {left : Token} {items around : List Expr}
      {outer : List (List Expr)} (outside : Built before ⟨around, outer⟩)
      (opening : left.shape = .leftParen) (inside : Derives inner items.reverse) :
      Built (before ++ left :: inner) ⟨items, around :: outer⟩

namespace Built

theorem empty : Built [] {} :=
  .closed .nothing

theorem push {tokens more : List Token} {nest : Nest} {item : Expr} (built : Built tokens nest)
    (derives : Derives more [item]) : Built (tokens ++ more) (nest.push item) := by
  cases built with
  | closed complete =>
    refine .closed ?_
    rw [List.reverse_cons]
    exact complete.append derives
  | opened outside opening inside =>
    rw [List.append_assoc, List.cons_append]
    refine .opened outside opening ?_
    rw [List.reverse_cons]
    exact inside.append derives

/-- One token. A closing parenthesis makes a form of the list that it closes. -/
theorem of_feeds {tokens : List Token} {nest fed : Nest} {token : Token}
    (built : Built tokens nest) (rule : Feeds limit nest token (.ok fed)) :
    Built (tokens ++ [token]) fed := by
  cases rule with
  | atom denotes => exact built.push (.atom_single denotes)
  | opens shape room => exact .opened built shape .nothing
  | closes shape closing =>
    cases built with
    | closed complete => cases closing
    | opened outside opening inside =>
      cases closing
      rw [List.append_assoc]
      exact outside.push (.list_single opening shape inside)

/-- A whole run. -/
theorem of_feedAll {tokens more : List Token} {nest fed : Nest} (built : Built tokens nest)
    (taken : nest.feedAll limit more = (fed, none)) : Built (tokens ++ more) fed := by
  induction more generalizing tokens nest with
  | nil =>
    cases taken
    rwa [List.append_nil]
  | cons token more previous =>
    obtain ⟨middle, rule, later⟩ := feedAll_cons_fed taken
    have joined := previous (built.of_feeds rule) later
    rwa [List.append_assoc] at joined

/-- If no list is open, all tokens are those of complete forms. -/
theorem derives {tokens : List Token} {items : List Expr} (built : Built tokens ⟨items, []⟩) :
    Derives tokens items.reverse := by
  cases built with
  | closed complete => exact complete

end Built

/-- A run keeps all items within the limit. -/
theorem sound_of_feedAll {nest fed : Nest} {tokens : List Token} (sound : nest.Sound limit)
    (lawful : ∀ token ∈ tokens, token.Lawful) (taken : nest.feedAll limit tokens = (fed, none)) :
    fed.Sound limit := by
  induction tokens generalizing nest with
  | nil =>
    cases taken
    exact sound
  | cons token tokens previous =>
    obtain ⟨middle, rule, later⟩ := feedAll_cons_fed taken
    have soundThen := sound_of_feeds sound (lawful token List.mem_cons_self) rule
    have lawfulThen : ∀ token ∈ tokens, token.Lawful :=
      fun other member => lawful other (List.mem_cons_of_mem _ member)
    exact previous soundThen lawfulThen later

end Nest

theorem hasRoom_nestingAll {limit : Int} {forms : List Expr}
    (fits : ∀ form ∈ forms, form.FitsWithin limit) : HasRoom limit 0 (Expr.nestingAll forms) := by
  induction forms with
  | nil => exact .inl rfl
  | cons form forms previous =>
    have first : HasRoom limit 0 form.nesting := fits form List.mem_cons_self
    have rest := previous fun other member => fits other (List.mem_cons_of_mem _ member)
    unfold HasRoom at *
    rw [Expr.nestingAll]
    omega

/-! ### What is read -/

namespace Reading

variable {limit : Int} {code : String}

/-- What is read without a flaw is derived by the tokens and within the limit. -/
theorem derives_of_flawless (read : (ofText limit code).flaw = none) :
    (Scan.ofText code).flaw = none ∧ Derives (Scan.ofText code).tokens (ofText limit code).forms ∧
      ∀ form ∈ (ofText limit code).forms, form.Legible ∧ form.FitsWithin limit := by
  obtain ⟨flawless, items, taken⟩ := Cursor.flaw_readAll_eq_none read
  have forms : (ofText limit code).forms = items.reverse := (Cursor.readAll_of_fed taken).1
  have built : Nest.Built ([] ++ (Scan.ofText code).tokens) ⟨items, []⟩ :=
    Nest.Built.empty.of_feedAll taken
  have sound : Nest.Sound limit ⟨items, []⟩ :=
    Nest.sound_of_feedAll Nest.sound_empty (scans_scan (Cursor.ofText code)).lawful taken
  refine ⟨flawless, ?_, ?_⟩
  · rw [forms]
    exact built.derives
  · intro form member
    rw [forms, List.mem_reverse] at member
    exact sound.1 form member

/-- Forms that the tokens derive are read, if they are within the limit. -/
theorem flawless_of_derives {forms : List Expr} (flawless : (Scan.ofText code).flaw = none)
    (derives : Derives (Scan.ofText code).tokens forms)
    (fits : ∀ form ∈ forms, form.FitsWithin limit) :
    (ofText limit code).flaw = none ∧ (ofText limit code).forms = forms := by
  have taken : Nest.feedAll limit {} (Cursor.ofText code).scan.tokens =
      (Nest.pushAll {} forms, none) := derives.feedAll {} (hasRoom_nestingAll fits)
  obtain ⟨read, flaw⟩ := Cursor.readAll_of_fed taken
  constructor
  · unfold ofText
    rw [flaw, if_pos]
    exact ⟨Option.isNone_iff_eq_none.mpr flawless, rfl⟩
  · unfold ofText
    rw [read]
    simp [Nest.forms, Nest.pushAll]

theorem cursor_of_flawless (read : (ofText limit code).flaw = none) :
    (ofText limit code).cursor = ⟨code.toList.length, []⟩ := by
  obtain ⟨flawless, items, taken⟩ := Cursor.flaw_readAll_eq_none read
  have ended := (scans_scan (Cursor.ofText code)).cursor_of_flawless flawless
  have depth : Nest.depth ⟨items, []⟩ = 0 := rfl
  unfold ofText Cursor.readAll
  simp only [taken, flawless, Option.isNone_none, depth, and_self, if_true, ended]
  simp [Cursor.ofText]

/-- **The reader accepts exactly its grammar.** A text is read as given forms if and only if its
tokens have no flaw and derive these forms, none of whose lists is nested deeper than the limit. A
token sequence derives at most one sequence of forms, and a text that is read is read to its end. -/
theorem accepts_exactly_grammar (code : String) (limit : Int) (forms : List Expr) :
    ((ofText limit code).flaw = none ∧ (ofText limit code).forms = forms ↔
      ∃ tokens, (Scan.ofText code).tokens = tokens ∧ (Scan.ofText code).flaw = none ∧
        Derives tokens forms ∧ ∀ form ∈ forms, form.FitsWithin limit) ∧
    (∀ tokens others, Derives tokens forms → Derives tokens others → forms = others) ∧
    ((ofText limit code).flaw = none → (ofText limit code).cursor = ⟨code.toList.length, []⟩) := by
  refine ⟨⟨?_, ?_⟩, fun tokens others first second => first.unique second, cursor_of_flawless⟩
  · rintro ⟨read, rfl⟩
    obtain ⟨flawless, derives, sound⟩ := derives_of_flawless read
    exact ⟨_, rfl, flawless, derives, fun form member => (sound form member).2⟩
  · rintro ⟨tokens, rfl, flawless, derives, fits⟩
    exact flawless_of_derives flawless derives fits

/-- Two forms, one of them of two levels, with a limit of two levels and with one of a single level.
-/
theorem accepts_exactly_grammar_nested :
    let code := "(f (1 \"a\")) x"
    let forms := [.list [.identifier "f", .list [.integer 1, .string "a"]], .identifier "x"]
    Derives (Scan.ofText code).tokens forms ∧
      (∀ others, Derives (Scan.ofText code).tokens others → forms = others) ∧
      (ofText 2 code).cursor = ⟨13, []⟩ ∧
      ¬ ((ofText 1 code).flaw = none ∧ (ofText 1 code).forms = forms) := by
  intro code forms
  have read : (ofText 2 code).flaw = none ∧ (ofText 2 code).forms = forms := by decide +kernel
  obtain ⟨accepts, unique, ended⟩ := accepts_exactly_grammar code 2 forms
  obtain ⟨tokens, rfl, _, derives, _⟩ := accepts.mp read
  have length : code.toList.length = 13 := by decide +kernel
  rw [length] at ended
  refine ⟨derives, fun others => unique _ others derives, ended read.1, fun accepted => ?_⟩
  obtain ⟨_, _, _, _, fits⟩ := (accepts_exactly_grammar code 1 forms).1.mp accepted
  have level : HasRoom 1 0 2 := fits _ List.mem_cons_self
  unfold HasRoom at level
  omega

end Reading

end Lisplet
