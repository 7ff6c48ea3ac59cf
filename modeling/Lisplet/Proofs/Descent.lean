import Lisplet.Proofs.SingleForms

/-!
Reading by recursive descent.

A nest keeps the lists that are open while tokens are fed to it. The same forms can be read by functions
that call one another: a reader pulls a token when it wants one, calls itself for the items of a list, and
is told how many lists are open around it. Both readers pull the same tokens in the same order. Where one
of them has a form or a flaw, so has the other, and both end at the same place.

* `Descent.readForm`, `Descent.readList`, `Descent.readItems`: the form that begins with a token that was
  pulled, a list behind its parenthesis, and the rest of the items of a list.
* `Descent.read`, `Descent.readAll`: one form, and all forms.
* `Nest.Follows`: what goes on in the same way as a nest as long as a list is open.
* `Nest.Follows.takeIn_eq`, `Nest.Follows.goOn_eq`: it goes on behind what is read by descent.
* `Descent.read_eq`, `Descent.readAll_eq`: descent and nests read the same.
-/

namespace Lisplet

/-! ### Pulling tokens -/

namespace Cursor

/-- Whatever comes of pulling a token, the cursor does not move back. -/
theorem next_forward (cursor : Cursor) : cursor.next.2.rest.length ≤ cursor.rest.length := by
  obtain ⟨result, after, lexes⟩ := exists_lexes cursor.skipSpacing.offset cursor.skipSpacing.rest
  rw [next, lexes.readHere_eq]
  exact Nat.le_trans lexes.suffix.length_le (length_skipSpacing_le cursor)

end Cursor

/-- What comes of reading from a cursor on, and a cursor that is not in front of it. -/
structure Pulled (α : Type) (cursor : Cursor) where
  result : Except Flaw α
  after : Cursor
  forward : after.rest.length ≤ cursor.rest.length

namespace Pulled

variable {α β ρ : Type} {cursor : Cursor} (goOn : α → Cursor → ρ) (stop : Flaw → Cursor → ρ)

/-- Go on with what was read, or stop at the flaw. -/
def elim (pulled : Pulled α cursor) : ρ :=
  match pulled.result with
  | .ok value => goOn value pulled.after
  | .error flaw => stop flaw pulled.after

theorem elim_of_ok {pulled : Pulled α cursor} {value : α} (done : pulled.result = .ok value) :
    pulled.elim goOn stop = goOn value pulled.after := by
  rw [elim, done]

theorem elim_of_error {pulled : Pulled α cursor} {flaw : Flaw}
    (done : pulled.result = .error flaw) :
    pulled.elim goOn stop = stop flaw pulled.after := by
  rw [elim, done]

/-- Only cursors that are not in front of the first one matter. -/
theorem elim_congr (pulled : Pulled α cursor) {other : α → Cursor → ρ}
    (same : ∀ value (after : Cursor), after.rest.length ≤ cursor.rest.length →
      goOn value after = other value after) :
    pulled.elim goOn stop = pulled.elim other stop := by
  rw [elim, elim]
  split
  · exact same _ _ pulled.forward
  · rfl

theorem elim_map (pulled : Pulled β cursor) {start : Cursor} (change : β → α)
    (forward : pulled.after.rest.length ≤ start.rest.length) :
    (⟨pulled.result.map change, pulled.after, forward⟩ : Pulled α start).elim goOn stop =
      pulled.elim (fun value => goOn (change value)) stop := by
  unfold elim
  cases pulled.result <;> rfl

end Pulled

namespace Descent

mutual

/-- The form that begins with a token that was pulled, inside of `depth` lists. -/
def readForm (limit : Int) (token : Token) (depth : Nat) (cursor : Cursor) : Pulled Expr cursor :=
  match token.shape with
  | .identifier => ⟨.ok (.identifier token.text), cursor, Nat.le_refl _⟩
  | .leftParen => readList limit token (depth + 1) cursor
  | .rightParen => ⟨.error ⟨.unbalanced, token.start, token.stop⟩, cursor, Nat.le_refl _⟩
  | .string => ⟨.ok (.string token.text), cursor, Nat.le_refl _⟩
  | .number =>
    match numeral? token.text with
    | some expr => ⟨.ok expr, cursor, Nat.le_refl _⟩
    | none => ⟨.error ⟨.malformedNumber token.text, token.start, token.stop⟩, cursor, Nat.le_refl _⟩
termination_by (cursor.rest.length, 2)

/-- A list behind its parenthesis, which is the one at `depth`. -/
def readList (limit : Int) (paren : Token) (depth : Nat) (cursor : Cursor) : Pulled Expr cursor :=
  if limit < depth then ⟨.error ⟨.tooDeep limit, paren.start, paren.stop⟩, cursor, Nat.le_refl _⟩
  else
    let items := readItems limit depth cursor
    ⟨items.result.map .list, items.after, items.forward⟩
termination_by (cursor.rest.length, 1)

/-- The items of a list from a cursor on, up to the parenthesis that closes it. -/
def readItems (limit : Int) (depth : Nat) (cursor : Cursor) : Pulled (List Expr) cursor :=
  have forward := cursor.next_forward
  match read : cursor.next with
  | (.error flaw, after) => ⟨.error flaw, after, by rw [read] at forward; exact forward⟩
  | (.ok token, after) =>
    have shorter := Cursor.next_shorter read
    if token.shape = .rightParen then ⟨.ok [], after, Nat.le_of_lt shorter⟩
    else
      let first := readForm limit token depth after
      have behind := Nat.lt_of_le_of_lt first.forward shorter
      match first.result with
      | .error flaw => ⟨.error flaw, first.after, Nat.le_of_lt behind⟩
      | .ok form =>
        let rest := readItems limit depth first.after
        ⟨rest.result.map (form :: ·), rest.after, Nat.le_of_lt (Nat.lt_of_le_of_lt rest.forward behind)⟩
termination_by (cursor.rest.length, 0)

end

section

variable {ρ : Type} (limit : Int) (depth : Nat) (cursor : Cursor) (stop : Flaw → Cursor → ρ)

theorem elim_readList (paren : Token) (goOn : Expr → Cursor → ρ) :
    (readList limit paren depth cursor).elim goOn stop =
      if limit < depth then stop ⟨.tooDeep limit, paren.start, paren.stop⟩ cursor
      else (readItems limit depth cursor).elim (fun items => goOn (.list items)) stop := by
  rw [readList]
  split
  · rfl
  · exact Pulled.elim_map goOn stop _ Expr.list _

/-- A list ends at a parenthesis, and otherwise goes on behind its first item. -/
theorem elim_readItems (goOn : List Expr → Cursor → ρ) :
    (readItems limit depth cursor).elim goOn stop =
      match cursor.next with
      | (.error flaw, after) => stop flaw after
      | (.ok token, after) =>
        if token.shape = .rightParen then goOn [] after
        else (readForm limit token depth after).elim (fun form next =>
          (readItems limit depth next).elim (fun rest => goOn (form :: rest)) stop) stop := by
  rw [readItems]
  split <;> rename_i pulled <;> simp only [pulled]
  · rfl
  · split
    · rfl
    · split <;> rename_i first
      · rw [Pulled.elim_of_error _ _ first]
        rfl
      · rw [Pulled.elim_of_ok _ _ first]
        exact Pulled.elim_map goOn stop _ _ _

end

/-- One form. -/
def read (limit : Int) (cursor : Cursor) : Except Flaw Expr × Cursor :=
  match cursor.next with
  | (.error flaw, after) => (.error flaw, after)
  | (.ok token, after) =>
    let form := readForm limit token 0 after
    (form.result, form.after)

theorem read_of_flaw {limit : Int} {cursor after : Cursor} {flaw : Flaw}
    (pulled : cursor.next = (.error flaw, after)) : read limit cursor = (.error flaw, after) := by
  rw [read, pulled]

theorem read_of_token {limit : Int} {cursor after : Cursor} {token : Token}
    (pulled : cursor.next = (.ok token, after)) :
    read limit cursor =
      ((readForm limit token 0 after).result, (readForm limit token 0 after).after) := by
  rw [read, pulled]

theorem read_shorter {limit : Int} {cursor after : Cursor} {form : Expr}
    (done : read limit cursor = (.ok form, after)) : after.rest.length < cursor.rest.length := by
  rcases pulled : cursor.next with ⟨flaw | token, behind⟩
  · cases (read_of_flaw pulled).symm.trans done
  · obtain ⟨_, rfl⟩ := Prod.mk.inj ((read_of_token pulled).symm.trans done)
    exact Nat.lt_of_le_of_lt (readForm limit token 0 behind).forward (Cursor.next_shorter pulled)

/-- All forms from a cursor on, up to the end of the text or the first flaw. -/
def readAll (limit : Int) (cursor : Cursor) : Reading :=
  if cursor.atEnd then ⟨[], none, cursor.skipSpacing⟩
  else
    match _done : read limit cursor with
    | (.error flaw, after) => ⟨[], some flaw, after⟩
    | (.ok form, after) =>
      let rest := readAll limit after
      { rest with forms := form :: rest.forms }
termination_by cursor.rest.length
decreasing_by exact read_shorter _done

theorem readAll_of_atEnd {limit : Int} {cursor : Cursor} (ended : cursor.atEnd = true) :
    readAll limit cursor = ⟨[], none, cursor.skipSpacing⟩ := by
  rw [readAll, if_pos ended]

theorem readAll_of_more {limit : Int} {cursor : Cursor} (more : cursor.atEnd = false) :
    readAll limit cursor =
      match read limit cursor with
      | (.error flaw, after) => ⟨[], some flaw, after⟩
      | (.ok form, after) =>
        { readAll limit after with forms := form :: (readAll limit after).forms } := by
  rw [readAll]
  simp only [more, Bool.false_eq_true, if_false]
  split <;> rename_i done <;> simp only [done]

end Descent

/-! ### Nests that pull tokens -/

namespace Cursor

theorem scan_of_atEnd {cursor : Cursor} (ended : cursor.atEnd = true) :
    cursor.scan = ⟨[], none, cursor.skipSpacing⟩ := by
  rw [scan, if_pos ended]

theorem scan_of_flaw {cursor after : Cursor} {flaw : Flaw} (more : cursor.atEnd = false)
    (pulled : cursor.next = (.error flaw, after)) : cursor.scan = ⟨[], some flaw, after⟩ := by
  rw [scan, more]
  simp only [Bool.false_eq_true, if_false]
  split <;> rename_i read <;> cases pulled.symm.trans read
  rfl

/-- At the end there is no token to pull. -/
theorem next_of_atEnd {cursor : Cursor} (ended : cursor.atEnd = true) :
    cursor.next = (.error (.at .endOfInput cursor.skipSpacing.offset), cursor.skipSpacing) := by
  rw [atEnd, List.isEmpty_iff] at ended
  rw [next, readHere, ended]

theorem scan_of_token {cursor after : Cursor} {token : Token}
    (pulled : cursor.next = (.ok token, after)) : cursor.scan = after.scan.cons token := by
  have more : cursor.atEnd = false := by
    refine Bool.eq_false_iff.mpr fun ended => ?_
    cases pulled.symm.trans (next_of_atEnd ended)
  rw [scan, more]
  simp only [Bool.false_eq_true, if_false]
  split <;> rename_i read <;> cases pulled.symm.trans read
  rfl

/-- The cursor behind a token that was pulled is the one where the reading goes on, and so it is behind
any later token. -/
theorem behind_of_next {cursor after : Cursor} {token : Token}
    (pulled : cursor.next = (.ok token, after)) :
    cursor.behind token = after ∧
      ∀ later ∈ after.scan.tokens, cursor.behind later = after.behind later := by
  obtain ⟨offset, chars⟩ := cursor
  obtain ⟨blanks, rest, rfl, blank, rfl | begins⟩ := exists_blanks ⟨offset, chars⟩
  · have ended : atEnd ⟨offset, blanks ++ []⟩ = true := by
      rw [List.append_nil, atEnd, skipSpacing_of_blank blank]
      rfl
    cases pulled.symm.trans (next_of_atEnd ended)
  · obtain ⟨result, reached, lexes⟩ := exists_lexes (offset + blanks.length) rest
    cases pulled.symm.trans (next_of_lexes blank begins lexes)
    refine ⟨lexes.behind_eq, fun later member => ?_⟩
    have order : token.stop ≤ later.stop := by
      rw [lexes.stop_eq]
      exact (scans_scan after).offset_le_stop later member
    have start : offset ≤ token.stop := by
      have forward := lexes.offset_le
      rw [lexes.stop_eq]
      omega
    rw [← lexes.behind_eq]
    exact (behind_behind start order).symm

end Cursor

/-! ### Going on behind what was read -/

namespace Nest

theorem forms_of_open (items around : List Expr) (outer : List (List Expr)) :
    forms ⟨items, around :: outer⟩ = forms ⟨around, outer⟩ := by
  simp [forms, List.getLast?_cons]

variable {ρ : Type} {limit : Int} {goOn : Nest → Cursor → ρ} {stop : List Expr → Flaw → Cursor → ρ}

/-- Take in a token that was pulled and go on, or stop at its flaw with the complete forms. -/
def takeIn (limit : Int) (goOn : Nest → Cursor → ρ) (stop : List Expr → Flaw → Cursor → ρ)
    (nest : Nest) (token : Token) (cursor : Cursor) : ρ :=
  match nest.feed limit token with
  | .ok fed => goOn fed cursor
  | .error flaw => stop nest.forms flaw cursor

/-- As long as a list is open, a token is pulled and taken in. -/
def Follows (limit : Int) (goOn : Nest → Cursor → ρ) (stop : List Expr → Flaw → Cursor → ρ) :
    Prop :=
  ∀ nest cursor, 0 < nest.depth →
    goOn nest cursor =
      match cursor.next with
      | (.ok token, after) => takeIn limit goOn stop nest token after
      | (.error flaw, after) => stop nest.forms flaw after

mutual

/-- Behind a token it goes on behind the form that begins with it. A parenthesis that closes a list begins
none. -/
theorem Follows.takeIn_eq (follows : Follows limit goOn stop) (nest : Nest) {token : Token}
    (begins : token.shape = .rightParen → nest.depth = 0) (cursor : Cursor) :
    takeIn limit goOn stop nest token cursor =
      (Descent.readForm limit token nest.depth cursor).elim (fun form => goOn (nest.push form))
        (stop nest.forms) := by
  rw [takeIn, feed, Descent.readForm]
  cases shape : token.shape with
  | identifier => rfl
  | string => rfl
  | number => cases numeral? token.text <;> rfl
  | rightParen =>
    rw [(closeList?_eq_none_iff nest).mpr (begins shape)]
    rfl
  | leftParen =>
    rw [Descent.elim_readList]
    by_cases deep : limit < (nest.depth : Int) + 1
    · rw [if_pos deep]
      exact (if_pos deep).symm
    · rw [if_neg deep]
      have items := follows.goOn_eq [] nest.items nest.outer cursor
      exact items.trans (if_neg deep).symm
termination_by (cursor.rest.length, 1)

/-- In a list it goes on behind the list. -/
theorem Follows.goOn_eq (follows : Follows limit goOn stop) (items around : List Expr)
    (outer : List (List Expr)) (cursor : Cursor) :
    goOn ⟨items, around :: outer⟩ cursor =
      (Descent.readItems limit (outer.length + 1) cursor).elim
        (fun later => goOn ⟨.list (items.reverse ++ later) :: around, outer⟩)
        (stop (forms ⟨around, outer⟩)) := by
  rw [follows ⟨items, around :: outer⟩ cursor (Nat.succ_pos outer.length), Descent.elim_readItems,
    forms_of_open]
  rcases pulled : cursor.next with ⟨flaw | token, after⟩
  · rfl
  · have shorter := Cursor.next_shorter pulled
    dsimp only
    by_cases closing : token.shape = .rightParen
    · rw [if_pos closing]
      simp only [takeIn, feed, closing, closeList?, List.append_nil]
    · rw [if_neg closing, follows.takeIn_eq _ (fun same => absurd same closing), forms_of_open]
      refine Pulled.elim_congr _ _ _ fun form next forward => ?_
      have behind := Nat.lt_of_le_of_lt forward shorter
      refine (follows.goOn_eq (form :: items) around outer next).trans ?_
      simp only [List.reverse_cons, List.append_assoc, List.singleton_append]
termination_by (cursor.rest.length, 0)

end

end Nest

/-! ### All forms -/

namespace Cursor

variable {limit : Int} {nest : Nest} {cursor after : Cursor} {token : Token} {flaw : Flaw}

/-- All forms, where some have been read and some lists are open. -/
def resume (limit : Int) (nest : Nest) (cursor : Cursor) : Reading :=
  let scan := cursor.scan
  match nest.feedAll limit scan.tokens with
  | (fed, some (flaw, token)) => ⟨fed.forms, some flaw, cursor.behind token⟩
  | (fed, none) =>
    if scan.flaw.isNone ∧ fed.depth = 0 then ⟨fed.forms, none, scan.cursor⟩
    else ⟨fed.forms, some (endFlaw scan), scan.cursor⟩

/-- Stop with the complete forms and a flaw. -/
def stopAll (forms : List Expr) (flaw : Flaw) (cursor : Cursor) : Reading :=
  ⟨forms, some flaw, cursor⟩

theorem resume_of_token (pulled : cursor.next = (.ok token, after)) :
    resume limit nest cursor = nest.takeIn limit (resume limit) stopAll token after := by
  obtain ⟨same, later⟩ := behind_of_next pulled
  rw [resume, scan_of_token pulled, Nest.takeIn]
  simp only [Scan.cons, Nest.feedAll]
  cases nest.feed limit token with
  | error flaw => exact congrArg (Reading.mk nest.forms (some flaw)) same
  | ok fed =>
    dsimp only
    rw [resume]
    rcases taken : fed.feedAll limit after.scan.tokens with ⟨last, _ | ⟨flaw, stopping⟩⟩
    · rfl
    · exact congrArg (Reading.mk last.forms (some flaw)) (later stopping (Nest.span_of_feedAll taken).1)

theorem resume_of_flaw (more : cursor.atEnd = false) (pulled : cursor.next = (.error flaw, after)) :
    resume limit nest cursor = stopAll nest.forms flaw after := by
  rw [resume, scan_of_flaw more pulled]
  rfl

theorem resume_of_atEnd (ended : cursor.atEnd = true) :
    resume limit nest cursor =
      if nest.depth = 0 then ⟨nest.forms, none, cursor.skipSpacing⟩
      else stopAll nest.forms (.at .endOfInput cursor.skipSpacing.offset) cursor.skipSpacing := by
  rw [resume, scan_of_atEnd ended]
  simp [Nest.feedAll, endFlaw, stopAll]

theorem follows_resume (limit : Int) : Nest.Follows limit (resume limit) stopAll := by
  intro nest cursor inside
  rcases pulled : cursor.next with ⟨flaw | token, after⟩
  · cases ended : cursor.atEnd with
    | true =>
      cases pulled.symm.trans (next_of_atEnd ended)
      exact (resume_of_atEnd ended).trans (if_neg (Nat.ne_of_gt inside))
    | false => exact resume_of_flaw ended pulled
  · exact resume_of_token pulled

end Cursor

namespace Descent

/-- In front of the end, one form is read by descent. -/
theorem resume_of_read {limit : Int} {cursor : Cursor} (more : cursor.atEnd = false)
    (older : List Expr) :
    Cursor.resume limit ⟨older, []⟩ cursor =
      match read limit cursor with
      | (.error flaw, after) => Cursor.stopAll older.reverse flaw after
      | (.ok form, after) => Cursor.resume limit ⟨form :: older, []⟩ after := by
  rcases pulled : cursor.next with ⟨flaw | token, behind⟩
  · rw [read_of_flaw pulled, Cursor.resume_of_flaw more pulled]
    rfl
  · have outermost : Nest.depth ⟨older, []⟩ = 0 := rfl
    rw [read_of_token pulled, Cursor.resume_of_token pulled,
      (Cursor.follows_resume limit).takeIn_eq ⟨older, []⟩ (fun _ => rfl), outermost, Pulled.elim]
    cases (readForm limit token 0 behind).result <;> rfl

/-- All forms that are read by descent stand behind those that have been read. -/
theorem resume_eq (limit : Int) (older : List Expr) (cursor : Cursor) :
    Cursor.resume limit ⟨older, []⟩ cursor =
      { readAll limit cursor with forms := older.reverse ++ (readAll limit cursor).forms } := by
  cases ended : cursor.atEnd with
  | true =>
    rw [readAll_of_atEnd ended, Cursor.resume_of_atEnd ended]
    simp [Nest.forms, Nest.depth]
  | false =>
    rw [readAll_of_more ended, resume_of_read ended]
    rcases done : read limit cursor with ⟨flaw | form, after⟩
    · simp [Cursor.stopAll]
    · have shorter := read_shorter done
      have rest := resume_eq limit (form :: older) after
      rw [List.reverse_cons, List.append_assoc] at rest
      exact rest
termination_by cursor.rest.length

/-- **Descent and nests read the same forms.** From any place of any text and below any limit they have
the same forms, stop at the same flaw if there is one, and end at the same place. -/
theorem readAll_eq (limit : Int) (cursor : Cursor) :
    readAll limit cursor = cursor.readAll limit := by
  have same := resume_eq limit [] cursor
  exact same.symm

end Descent

/-! ### One form -/

namespace Nest

variable {limit : Int}

/-- The token at which the reading of a form ended. -/
def Progress.token? : Progress → Option Token
  | .complete _ token => some token
  | .flawed _ token => some token
  | .unfinished => none

theorem mem_of_feedOne {nest : Nest} {tokens : List Token} {token : Token}
    (ended : (nest.feedOne limit tokens).token? = some token) : token ∈ tokens := by
  induction tokens generalizing nest with
  | nil => cases ended
  | cons first tokens previous =>
    rw [feedOne] at ended
    split at ended
    · cases ended
      exact List.mem_cons_self
    · split at ended
      · cases ended
        exact List.mem_cons_self
      · exact List.mem_cons_of_mem _ (previous ended)

end Nest

namespace Cursor

variable {limit : Int} {nest : Nest} {cursor after : Cursor} {token : Token} {flaw : Flaw}

/-- One form, where some lists are open, or none is and no form is complete. -/
def resumeOne (limit : Int) (nest : Nest) (cursor : Cursor) : Except Flaw Expr × Cursor :=
  let scan := cursor.scan
  match nest.feedOne limit scan.tokens with
  | .complete form token => (.ok form, cursor.behind token)
  | .flawed flaw token => (.error flaw, cursor.behind token)
  | .unfinished => (.error (endFlaw scan), scan.cursor)

/-- One form, where it may be complete. -/
def finishOne (limit : Int) (nest : Nest) (cursor : Cursor) : Except Flaw Expr × Cursor :=
  match nest.outer, nest.items with
  | [], form :: _ => (.ok form, cursor)
  | _, _ => resumeOne limit nest cursor

/-- Stop with a flaw. -/
def stopOne (_forms : List Expr) (flaw : Flaw) (cursor : Cursor) : Except Flaw Expr × Cursor :=
  (.error flaw, cursor)

theorem resumeOne_of_flaw (pulled : cursor.next = (.error flaw, after)) :
    resumeOne limit nest cursor = (.error flaw, after) := by
  cases ended : cursor.atEnd with
  | true =>
    cases pulled.symm.trans (next_of_atEnd ended)
    rw [resumeOne, scan_of_atEnd ended]
    rfl
  | false =>
    rw [resumeOne, scan_of_flaw ended pulled]
    rfl

theorem resumeOne_of_token (pulled : cursor.next = (.ok token, after)) :
    resumeOne limit nest cursor = nest.takeIn limit (finishOne limit) stopOne token after := by
  obtain ⟨same, later⟩ := behind_of_next pulled
  rw [resumeOne, scan_of_token pulled, Nest.takeIn]
  simp only [Scan.cons, Nest.feedOne]
  cases nest.feed limit token with
  | error flaw => exact congrArg (Prod.mk _) same
  | ok fed =>
    have goesOn : (match fed.feedOne limit after.scan.tokens with
        | .complete form token => (Except.ok form, cursor.behind token)
        | .flawed flaw token => (.error flaw, cursor.behind token)
        | .unfinished => (.error (endFlaw (after.scan.cons token)), after.scan.cursor)) =
          resumeOne limit fed after := by
      rw [resumeOne]
      cases ended : fed.feedOne limit after.scan.tokens with
      | complete form last =>
        exact congrArg (Prod.mk _) (later last (Nest.mem_of_feedOne (by rw [ended]; rfl)))
      | flawed flaw last =>
        exact congrArg (Prod.mk _) (later last (Nest.mem_of_feedOne (by rw [ended]; rfl)))
      | unfinished => rfl
    obtain ⟨_ | ⟨form, items⟩, _ | ⟨around, outer⟩⟩ := fed
    · exact goesOn
    · exact goesOn
    · exact congrArg (Prod.mk _) same
    · exact goesOn

theorem follows_finishOne (limit : Int) : Nest.Follows limit (finishOne limit) stopOne := by
  intro nest cursor inside
  obtain ⟨items, _ | ⟨around, outer⟩⟩ := nest
  · cases inside
  · rw [finishOne]
    rcases pulled : cursor.next with ⟨flaw | token, after⟩
    · exact resumeOne_of_flaw pulled
    · exact resumeOne_of_token pulled

end Cursor

/-- **Descent and nests read the same first form.** From any place of any text and below any limit it is
the same form or the same flaw, and they end at the same place. -/
theorem Descent.read_eq (limit : Int) (cursor : Cursor) :
    read limit cursor = cursor.readForm limit := by
  have started : cursor.readForm limit = Cursor.resumeOne limit {} cursor := rfl
  rw [started]
  rcases pulled : cursor.next with ⟨flaw | token, after⟩
  · rw [read_of_flaw pulled, Cursor.resumeOne_of_flaw pulled]
  · have outermost : Nest.depth {} = 0 := rfl
    rw [read_of_token pulled, Cursor.resumeOne_of_token pulled,
      (Cursor.follows_finishOne limit).takeIn_eq {} (fun _ => rfl), outermost, Pulled.elim]
    cases (readForm limit token 0 after).result <;> rfl

end Lisplet
