import Lisplet.Error.Basic
import Lisplet.Proofs.Continuation
import Lisplet.Proofs.Grammar
import Lisplet.Proofs.Spelling
import Mathlib.Data.List.Induction

/-!
The first flaw wins.

Go through the tokens of a text from left to right and count the open lists. The reading fails if
and only if it meets something on the way that cannot be read, and what it reports is what it meets
first, with the span that is to blame.

* `Error.IsOfReading`: the errors that a flaw of a text makes.
* `Reading.Event`: what cannot be read behind some of the tokens.
* `Reading.FirstEvent`: an event with no other one in front of it.
* `Nest.feedAll_stopped`: what stops a nest is refused by the nest that all earlier tokens made.
* `Nest.closed_of_feedAll`: the forms of a nest are those closed so far.
* `Reading.fed_of_first`, `Reading.first_of_fed`: up to the first event all tokens are taken in, and
  up to no later one.
* `Reading.reports_first_event`: the flaw of a reading is its first event.
-/

namespace Lisplet

/-! ### Runs that stop -/

namespace Nest

variable {limit : Int}

/-- What stops a nest is refused by the nest that all earlier tokens made. -/
theorem feedAll_stopped {nest fed : Nest} {tokens : List Token} {flaw : Flaw} {token : Token}
    (stopped : nest.feedAll limit tokens = (fed, some (flaw, token))) :
    ∃ front back, tokens = front ++ token :: back ∧ nest.feedAll limit front = (fed, none) ∧
      Feeds limit fed token (.error flaw) := by
  induction tokens generalizing nest with
  | nil => cases stopped
  | cons first tokens previous =>
    obtain ⟨rule, rfl⟩ | ⟨middle, rule, later⟩ := feedAll_cons_stopped stopped
    · rw [feedAll, rule.feed_eq] at stopped
      cases stopped
      exact ⟨[], tokens, rfl, rfl, rule⟩
    · obtain ⟨front, back, rfl, taken, refused⟩ := previous later
      refine ⟨first :: front, back, rfl, ?_, refused⟩
      rw [feedAll, rule.feed_eq]
      exact taken

theorem feedAll_of_refused {nest fed : Nest} {front back : List Token} {flaw : Flaw}
    {token : Token} (taken : nest.feedAll limit front = (fed, none))
    (refused : Feeds limit fed token (.error flaw)) :
    nest.feedAll limit (front ++ token :: back) = (fed, some (flaw, token)) := by
  rw [feedAll_append, taken]
  show fed.feedAll limit (token :: back) = _
  rw [feedAll, refused.feed_eq]

theorem feedAll_split {nest fed : Nest} {front back : List Token} {token : Token}
    (taken : nest.feedAll limit (front ++ token :: back) = (fed, none)) :
    ∃ middle next, nest.feedAll limit front = (middle, none) ∧
      Feeds limit middle token (.ok next) := by
  rw [feedAll_append] at taken
  rcases first : nest.feedAll limit front with ⟨middle, _ | stop⟩
  · rw [first] at taken
    obtain ⟨next, rule, _⟩ := feedAll_cons_fed taken
    exact ⟨middle, next, rfl, rule⟩
  · rw [first] at taken
    cases taken

/-- As long as a list stays open, no form is completed. -/
theorem forms_of_feeds {nest fed : Nest} {token : Token} (rule : Feeds limit nest token (.ok fed))
    (opened : 0 < fed.depth) : fed.forms = nest.forms := by
  obtain ⟨items, outer⟩ := nest
  cases rule with
  | atom denotes =>
    cases outer with
    | nil => exact absurd opened (Nat.lt_irrefl 0)
    | cons around outer => simp [forms, push, List.getLast?_cons]
  | opens shape room => simp [forms, openList, List.getLast?_cons]
  | closes shape closing =>
    cases outer with
    | nil => cases closing
    | cons around outer =>
      cases closing
      cases outer with
      | nil => exact absurd opened (Nat.lt_irrefl 0)
      | cons next outer => simp [forms, List.getLast?_cons]

/-- The forms of a nest are those of the longest part of its tokens that leaves no list open. -/
theorem closed_of_feedAll {nest : Nest} {tokens : List Token}
    (taken : feedAll limit {} tokens = (nest, none)) :
    ∃ closed opened, tokens = closed ++ opened ∧ Derives closed nest.forms ∧
      ∀ more, more <+: opened → more ≠ [] →
        ∃ count, openLists? 0 (closed ++ more) = some (count + 1) := by
  induction tokens using List.reverseRecOn generalizing nest with
  | nil =>
    cases taken
    refine ⟨[], [], rfl, .nothing, fun more within nonempty => ?_⟩
    exact absurd (List.prefix_nil.mp within) nonempty
  | append_singleton tokens token previous =>
    obtain ⟨middle, next, before, rule⟩ := feedAll_split taken
    have same : next = nest := by
      rw [feedAll_append, before] at taken
      change feedAll limit middle [token] = (nest, none) at taken
      rw [feedAll, rule.feed_eq] at taken
      exact congrArg Prod.fst taken
    subst same
    by_cases complete : next.depth = 0
    · -- The token closes the last open list, so all tokens are those of complete forms.
      obtain ⟨items, outer⟩ := next
      have none : outer = [] := List.length_eq_zero_iff.mp complete
      subst none
      have built : Built ([] ++ (tokens ++ [token])) ⟨items, []⟩ := Built.empty.of_feedAll taken
      refine ⟨tokens ++ [token], [], by simp, built.derives, fun more within nonempty => ?_⟩
      exact absurd (List.prefix_nil.mp within) nonempty
    · obtain ⟨closed, opened, split, derives, inside⟩ := previous before
      refine ⟨closed, opened ++ [token], by simp [split], ?_, fun more within nonempty => ?_⟩
      · rw [forms_of_feeds rule (Nat.pos_of_ne_zero complete)]
        exact derives
      · rcases List.prefix_concat_iff.mp within with whole | shorter
        · have counted : openLists? 0 (tokens ++ [token]) = some next.depth :=
            openLists?_of_feedAll taken
          obtain ⟨count, depth⟩ := Nat.exists_eq_succ_of_ne_zero complete
          refine ⟨count, ?_⟩
          rw [whole, ← List.append_assoc, ← split, counted, depth]
        · exact inside more shorter nonempty

end Nest

/-- The forms that are read are those of a run that takes all its tokens, also in front of a flaw. -/
theorem Cursor.exists_fed_of_readAll (limit : Int) (cursor : Cursor) :
    ∃ nest tokens, tokens <+: cursor.scan.tokens ∧ Nest.feedAll limit {} tokens = (nest, none) ∧
      (cursor.readAll limit).forms = nest.forms := by
  rcases run : Nest.feedAll limit {} cursor.scan.tokens with ⟨nest, _ | stop⟩
  · exact ⟨nest, _, List.prefix_refl _, run, (readAll_of_fed run).1⟩
  · obtain ⟨front, back, split, taken, _⟩ := Nest.feedAll_stopped run
    exact ⟨nest, front, ⟨_, split.symm⟩, taken, (readAll_of_stop run).1⟩

/-! ### Errors of reading -/

/-- A lexical error or a parse error. -/
def Error.IsOfReading (error : Error) : Prop :=
  ErrorKind.lexical ∈ error.kind.ancestors ∨ ErrorKind.parse ∈ error.kind.ancestors

theorem Flaw.isOfReading_toError (flaw : Flaw) (source : String) :
    (flaw.toError source).IsOfReading := by
  show ErrorKind.lexical ∈ flaw.cause.kind.ancestors ∨ ErrorKind.parse ∈ flaw.cause.kind.ancestors
  cases flaw.cause with
  | endOfInput | notEscapable | numberChar | unexpectedChar => exact .inl List.mem_cons_self
  | unbalanced | malformedNumber | tooDeep => exact .inr List.mem_cons_self

/-! ### Events -/

namespace Reading

/-- What cannot be read behind the tokens `front` of a text, where the count of open lists starts
from zero: a flaw of the next token, a closing parenthesis without an open list, a list beyond the
limit, a numeral that denotes no number, or the end of the text inside a list. -/
inductive Event (limit : Int) (code : String) : (front : List Token) → Flaw → Prop
  | lexical {flaw : Flaw} (found : (Scan.ofText code).flaw = some flaw) :
      Event limit code (Scan.ofText code).tokens flaw
  | unbalanced {front back : List Token} {token : Token}
      (split : (Scan.ofText code).tokens = front ++ token :: back)
      (shape : token.shape = .rightParen) (counted : openLists? 0 front = some 0) :
      Event limit code front ⟨.unbalanced, token.start, token.stop⟩
  | tooDeep {front back : List Token} {token : Token} {count : Nat}
      (split : (Scan.ofText code).tokens = front ++ token :: back)
      (shape : token.shape = .leftParen) (counted : openLists? 0 front = some count)
      (deep : limit ≤ count) : Event limit code front ⟨.tooDeep limit, token.start, token.stop⟩
  | malformed {front back : List Token} {token : Token}
      (split : (Scan.ofText code).tokens = front ++ token :: back)
      (shape : token.shape = .number) (denotes : numeral? token.text = none) :
      Event limit code front ⟨.malformedNumber token.text, token.start, token.stop⟩
  | unfinished {count : Nat} (flawless : (Scan.ofText code).flaw = none)
      (counted : openLists? 0 (Scan.ofText code).tokens = some count) (opened : 0 < count) :
      Event limit code (Scan.ofText code).tokens (.at .endOfInput code.toList.length)

/-- An event with no other one in front of it. -/
def FirstEvent (limit : Int) (code : String) (front : List Token) (flaw : Flaw) : Prop :=
  Event limit code front flaw ∧
    ∀ earlier other, Event limit code earlier other → front.length ≤ earlier.length

variable {limit : Int} {code : String} {front back : List Token} {flaw : Flaw} {nest : Nest}

theorem event_of_refused {token : Token}
    (split : (Scan.ofText code).tokens = front ++ token :: back)
    (taken : Nest.feedAll limit {} front = (nest, none))
    (refused : Nest.Feeds limit nest token (.error flaw)) : Event limit code front flaw := by
  have counted : openLists? 0 front = some nest.depth := Nest.openLists?_of_feedAll taken
  cases refused with
  | malformed shape denotes => exact .malformed split shape denotes
  | tooDeep shape deep => exact .tooDeep split shape counted (by omega)
  | unbalanced shape closed => exact .unbalanced split shape (by rw [counted, closed])

/-- What is taken in is no event. -/
theorem Event.not_fed (event : Event limit code front flaw) {token : Token} {fed : Nest}
    (split : (Scan.ofText code).tokens = front ++ token :: back)
    (taken : Nest.feedAll limit {} front = (nest, none)) :
    ¬ Nest.Feeds limit nest token (.ok fed) := by
  intro rule
  have counted : openLists? 0 front = some nest.depth := Nest.openLists?_of_feedAll taken
  have atEnd : (Scan.ofText code).tokens ≠ (Scan.ofText code).tokens ++ token :: back := by simp
  cases event with
  | lexical found => exact atEnd split
  | unfinished flawless all opened => exact atEnd split
  | unbalanced here shape closed =>
    cases (List.cons.inj (List.append_cancel_left (here.symm.trans split))).1
    cases rule with
    | atom denotes => exact (Token.not_paren_of_atom? denotes).2 shape
    | opens other _ => cases shape.symm.trans other
    | closes other closing =>
      have depth := Nest.depth_of_closeList? closing
      rw [counted, Option.some.injEq] at closed
      omega
  | tooDeep here shape opened deep =>
    cases (List.cons.inj (List.append_cancel_left (here.symm.trans split))).1
    cases rule with
    | atom denotes => exact (Token.not_paren_of_atom? denotes).1 shape
    | opens other room =>
      rw [counted, Option.some.injEq] at opened
      omega
    | closes other _ => cases shape.symm.trans other
  | malformed here shape denotes =>
    cases (List.cons.inj (List.append_cancel_left (here.symm.trans split))).1
    cases rule with
    | atom found => simp [Token.atom?, shape, denotes] at found
    | opens other _ => cases shape.symm.trans other
    | closes other _ => cases shape.symm.trans other

theorem Event.prefix_tokens (event : Event limit code front flaw) :
    front <+: (Scan.ofText code).tokens := by
  cases event with
  | lexical => exact List.prefix_rfl
  | unfinished => exact List.prefix_rfl
  | unbalanced split => exact ⟨_, split.symm⟩
  | tooDeep split => exact ⟨_, split.symm⟩
  | malformed split => exact ⟨_, split.symm⟩

/-- Tokens that are taken in have no event in front of them. -/
theorem Event.length_le_of_fed (event : Event limit code front flaw) {later : List Token}
    (within : later <+: (Scan.ofText code).tokens)
    (taken : Nest.feedAll limit {} later = (nest, none)) : later.length ≤ front.length := by
  by_contra shorter
  have before : front <+: later :=
    List.prefix_of_prefix_length_le event.prefix_tokens within (by omega)
  obtain ⟨rest, rfl⟩ := before
  cases rest with
  | nil => simp at shorter
  | cons token rest =>
    obtain ⟨middle, next, fed, rule⟩ := Nest.feedAll_split taken
    obtain ⟨back, split⟩ := within
    rw [List.append_assoc, List.cons_append] at split
    exact event.not_fed split.symm fed rule

/-- Up to the first event all tokens are taken in. -/
theorem fed_of_first (first : FirstEvent limit code front flaw) :
    ∃ nest, Nest.feedAll limit {} front = (nest, none) := by
  rcases run : Nest.feedAll limit {} front with ⟨nest, _ | ⟨found, token⟩⟩
  · exact ⟨nest, rfl⟩
  · obtain ⟨earlier, back, rfl, taken, refused⟩ := Nest.feedAll_stopped run
    obtain ⟨rest, split⟩ := first.1.prefix_tokens
    rw [List.append_assoc, List.cons_append] at split
    have sooner := first.2 earlier found (event_of_refused split.symm taken refused)
    simp only [List.length_append, List.length_cons] at sooner
    omega

theorem first_of_fed (event : Event limit code front flaw)
    (taken : Nest.feedAll limit {} front = (nest, none)) : FirstEvent limit code front flaw :=
  ⟨event, fun _ _ other => other.length_le_of_fed event.prefix_tokens taken⟩

/-! ### Events and the reader -/

/-- An event behind tokens that are taken in is the flaw of the reading. -/
theorem Event.reported (event : Event limit code front flaw)
    (taken : Nest.feedAll limit {} front = (nest, none)) :
    (ofText limit code).flaw = some flaw ∧ (ofText limit code).forms = nest.forms := by
  have counted : openLists? 0 front = some nest.depth := Nest.openLists?_of_feedAll taken
  have reported : ∀ {token : Token} {back : List Token},
      (Scan.ofText code).tokens = front ++ token :: back →
      Nest.Feeds limit nest token (.error flaw) →
      (ofText limit code).flaw = some flaw ∧ (ofText limit code).forms = nest.forms := by
    intro token back split refused
    have stopped : Nest.feedAll limit {} (Scan.ofText code).tokens =
        (nest, some (flaw, token)) := by
      rw [split]
      exact Nest.feedAll_of_refused taken refused
    exact ⟨(Cursor.readAll_of_stop stopped).2, (Cursor.readAll_of_stop stopped).1⟩
  cases event with
  | unbalanced split shape closed =>
    rw [counted, Option.some.injEq] at closed
    exact reported split (.unbalanced shape closed)
  | tooDeep split shape opened deep =>
    rw [counted, Option.some.injEq] at opened
    exact reported split (.tooDeep shape (by omega))
  | malformed split shape denotes => exact reported split (.malformed shape denotes)
  | lexical found =>
    obtain ⟨forms, read⟩ := Cursor.readAll_of_fed taken
    refine ⟨?_, forms⟩
    change (Cursor.ofText code).scan.flaw = some flaw at found
    unfold ofText
    rw [read, if_neg (by simp [found]), Cursor.endFlaw, found]
    rfl
  | unfinished flawless all opened =>
    obtain ⟨forms, read⟩ := Cursor.readAll_of_fed taken
    refine ⟨?_, forms⟩
    rw [counted, Option.some.injEq] at all
    change (Cursor.ofText code).scan.flaw = none at flawless
    have ended := (scans_scan (Cursor.ofText code)).cursor_of_flawless flawless
    unfold ofText
    rw [read, if_neg (by omega), Cursor.endFlaw, flawless, ended]
    simp [Cursor.ofText]

/-- The flaw of a reading is an event behind tokens that are taken in. -/
theorem exists_event (read : (ofText limit code).flaw = some flaw) :
    ∃ front nest, Nest.feedAll limit {} front = (nest, none) ∧ Event limit code front flaw := by
  rcases run : Nest.feedAll limit {} (Cursor.ofText code).scan.tokens with
    ⟨nest, _ | ⟨found, token⟩⟩
  · refine ⟨_, nest, run, ?_⟩
    have counted : openLists? 0 (Scan.ofText code).tokens = some nest.depth :=
      Nest.openLists?_of_feedAll run
    unfold ofText at read
    rw [(Cursor.readAll_of_fed run).2] at read
    split at read
    · cases read
    rename_i unfinished
    cases read
    cases spoiled : (Scan.ofText code).flaw with
    | some other =>
      change (Cursor.ofText code).scan.flaw = some other at spoiled
      rw [Cursor.endFlaw, spoiled]
      exact .lexical spoiled
    | none =>
      change (Cursor.ofText code).scan.flaw = none at spoiled
      have ended := (scans_scan (Cursor.ofText code)).cursor_of_flawless spoiled
      have opened : 0 < nest.depth := by
        rw [spoiled] at unfinished
        simp only [Option.isNone_none, true_and] at unfinished
        omega
      have length : (Cursor.ofText code).offset + (Cursor.ofText code).rest.length =
          code.toList.length := Nat.zero_add _
      rw [Cursor.endFlaw, spoiled, ended, length]
      exact .unfinished spoiled counted opened
  · obtain ⟨front, back, split, taken, refused⟩ := Nest.feedAll_stopped run
    have same : found = flaw := by
      unfold ofText at read
      rw [(Cursor.readAll_of_stop run).2] at read
      exact Option.some.inj read
    subst same
    exact ⟨front, nest, taken, event_of_refused split taken refused⟩

theorem no_event_of_flawless (read : (ofText limit code).flaw = none) :
    ¬ Event limit code front flaw := by
  intro event
  obtain ⟨flawless, items, taken⟩ := Cursor.flaw_readAll_eq_none read
  have late : (Scan.ofText code).tokens.length ≤ front.length :=
    event.length_le_of_fed List.prefix_rfl taken
  have whole : front = (Scan.ofText code).tokens := event.prefix_tokens.eq_of_length_le late
  subst whole
  obtain ⟨reported, _⟩ := event.reported taken
  rw [read] at reported
  cases reported

/-- The flaw of a reading points at what is wrong. -/
theorem pointsInto_of_flaw (read : (ofText limit code).flaw = some flaw) :
    flaw.PointsInto code.toList := by
  obtain ⟨placed, culprit⟩ := Scan.placed code
  obtain ⟨front, nest, taken, event⟩ := exists_event read
  have member : ∀ {token : Token} {back : List Token},
      (Scan.ofText code).tokens = front ++ token :: back → token.StandsIn code.toList := by
    intro token back split
    exact placed token (by simp [split])
  cases event with
  | lexical found => exact culprit flaw found
  | unfinished => exact ⟨Nat.lt_succ_self _, rfl⟩
  | unbalanced split shape =>
    have stands := member split
    simp only [Token.StandsIn, Token.Spelling, shape] at stands
    exact ⟨stands.1, stands.2.2⟩
  | tooDeep split shape =>
    have stands := member split
    simp only [Token.StandsIn, Token.Spelling, shape] at stands
    exact ⟨stands.1, stands.2.2⟩
  | malformed split shape =>
    have stands := member split
    simp only [Token.StandsIn, Token.Spelling, shape] at stands
    exact ⟨stands.1, stands.2.2⟩

/-- **The first flaw wins.** A reading fails if and only if there is an event, and its flaw is the
first one. The forms read until then are those that the longest part of the tokens in front of the
event derives behind which no list is open. The error is located in the text, and its span, which is
not empty, holds what is wrong. -/
theorem reports_first_event (code : String) (limit : Int) :
    ((∃ flaw, (ofText limit code).flaw = some flaw) ↔
      ∃ front flaw, Event limit code front flaw) ∧
    (∀ flaw, (ofText limit code).flaw = some flaw ↔ ∃ front, FirstEvent limit code front flaw) ∧
    (∀ front flaw, FirstEvent limit code front flaw →
      ∃ closed opened, front = closed ++ opened ∧ Derives closed (ofText limit code).forms ∧
        ∀ more, more <+: opened → more ≠ [] →
          ∃ count, openLists? 0 (closed ++ more) = some (count + 1)) ∧
    ∀ flaw, (ofText limit code).flaw = some flaw →
      flaw.PointsInto code.toList ∧ (flaw.toError code).source = code ∧
        (flaw.toError code).start < (flaw.toError code).stop := by
  refine ⟨⟨?_, ?_⟩, fun flaw => ⟨?_, ?_⟩, ?_, ?_⟩
  · rintro ⟨flaw, read⟩
    obtain ⟨front, _, _, event⟩ := exists_event read
    exact ⟨front, flaw, event⟩
  · rintro ⟨front, flaw, event⟩
    exact Option.ne_none_iff_exists'.mp fun read => no_event_of_flawless read event
  · intro read
    obtain ⟨front, _, taken, event⟩ := exists_event read
    exact ⟨front, first_of_fed event taken⟩
  · rintro ⟨front, first⟩
    obtain ⟨nest, taken⟩ := fed_of_first first
    exact (first.1.reported taken).1
  · intro front flaw first
    obtain ⟨nest, taken⟩ := fed_of_first first
    rw [(first.1.reported taken).2]
    exact Nest.closed_of_feedAll taken
  · intro flaw read
    have culprit := pointsInto_of_flaw read
    exact ⟨culprit, rfl, Int.ofNat_lt.mpr culprit.1⟩

/-- A malformed number in an open list, with a list that is too deep and an open string behind it.
-/
theorem reports_first_event_number :
    let code := "a (b 1.2.3 (\"x"
    let flaw : Flaw := ⟨.malformedNumber "1.2.3", 5, 10⟩
    flaw.PointsInto code.toList ∧
      ∃ front, FirstEvent 1 code front flaw ∧
        ∃ closed opened, front = closed ++ opened ∧ Derives closed [.identifier "a"] ∧
          ∀ more, more <+: opened → more ≠ [] →
            ∃ count, openLists? 0 (closed ++ more) = some (count + 1) := by
  intro code flaw
  have read : (ofText 1 code).flaw = some flaw := by decide +kernel
  have forms : (ofText 1 code).forms = [.identifier "a"] := by decide +kernel
  obtain ⟨_, first, split, points⟩ := reports_first_event code 1
  obtain ⟨front, event⟩ := (first flaw).mp read
  have closed := split front flaw event
  rw [forms] at closed
  exact ⟨(points flaw read).1, front, event, closed⟩

end Reading

end Lisplet
