/-!
Decoding UTF-8.

`Utf8.decode` turns octets into characters or names the first fault. A sequence that the end of the
input cuts off is held back until the input is known to be over, so the positions of its fault are
counted from the start of the sequence itself; all other faults are located in the whole input.

* `Utf8.Fault`: what is wrong and at which octets.
* `Utf8.step`: the first character of a non-empty input, or its fault.
* `Utf8.decode`: the whole input.
-/

namespace Lisplet.Utf8

/-- The ways in which octets fail to be UTF-8. -/
inductive Flaw where
  /-- No character begins with this octet. -/
  | start
  /-- The octets so far begin a character, and the next octet does not continue it. -/
  | continuation
  /-- The input ends inside a character. -/
  | truncated
  deriving DecidableEq, Repr

/-- A fault: its kind, the position and value of the first octet, and how many octets it covers. -/
structure Fault where
  flaw : Flaw
  position : Nat
  octet : Nat
  count : Nat
  deriving DecidableEq, Repr

/-- An octet that continues a character. -/
def isTail (octet : Nat) : Bool :=
  0x80 ≤ octet && octet ≤ 0xBF

/-- How many octets a character has that begins with `lead`, if one does. -/
def width? (lead : Nat) : Option Nat :=
  if lead < 0x80 then some 1
  else if 0xC2 ≤ lead && lead ≤ 0xDF then some 2
  else if 0xE0 ≤ lead && lead ≤ 0xEF then some 3
  else if 0xF0 ≤ lead && lead ≤ 0xF4 then some 4
  else none

/-- Whether `second` may follow `lead`: overlong forms, surrogates and points beyond the last plane
are excluded here. -/
def follows (lead second : Nat) : Bool :=
  let lowest := if lead == 0xE0 then 0xA0 else if lead == 0xF0 then 0x90 else 0x80
  let highest := if lead == 0xED then 0x9F else if lead == 0xF4 then 0x8F else 0xBF
  lowest ≤ second && second ≤ highest

/-- The number of leading octets of `tail` that continue a character begun by `lead`, at most
`wanted`. -/
def goodTail (lead wanted : Nat) (tail : List Nat) : Nat :=
  match tail.take wanted with
  | [] => 0
  | second :: more => if follows lead second then 1 + (more.takeWhile isTail).length else 0

/-- The code point spelled by a lead octet of a character of `width` octets and its tail. -/
def point (width lead : Nat) (tail : List Nat) : Nat :=
  let head := match width with
    | 1 => lead
    | 2 => lead % 0x20
    | 3 => lead % 0x10
    | _ => lead % 0x08
  tail.foldl (fun value octet => value * 0x40 + octet % 0x40) head

/-- The first character of the input `lead :: rest` at `position` and the number of octets behind
the lead that belong to it, or the fault there. -/
def step (position lead : Nat) (rest : List Nat) : Except Fault (Char × Nat) :=
  match width? lead with
  | none => .error ⟨.start, position, lead, 1⟩
  | some width =>
    let good := goodTail lead (width - 1) rest
    if good = width - 1 then .ok (Char.ofNat (point width lead (rest.take good)), good)
    else if good = rest.length then .error ⟨.truncated, 0, lead, good + 1⟩
    else if lead = 0xED ∧ good = 0 ∧ rest.length = 1 ∧ rest.all isTail then
      .error ⟨.continuation, 0, lead, 1⟩
    else .error ⟨.continuation, position, lead, good + 1⟩

/-- Decode the octets from `position` on. -/
def decodeFrom (position : Nat) : List Nat → Except Fault (List Char)
  | [] => .ok []
  | lead :: rest =>
    match step position lead rest with
    | .error fault => .error fault
    | .ok (char, used) =>
      match decodeFrom (position + 1 + used) (rest.drop used) with
      | .error fault => .error fault
      | .ok chars => .ok (char :: chars)
termination_by octets => octets.length
decreasing_by simp only [List.length_cons, List.length_drop]; omega

/-- The text that the octets spell, or the first fault among them. -/
def decode (octets : List Nat) : Except Fault String :=
  (decodeFrom 0 octets).map String.ofList

/-- The two-digit hexadecimal text of an octet. -/
def hexOctet (octet : Nat) : String :=
  let digits := Nat.toDigits 16 octet
  String.ofList (if digits.length < 2 then '0' :: digits else digits)

/-- The words for a kind of fault. -/
def Flaw.reason : Flaw → String
  | .start => "invalid start byte"
  | .continuation => "invalid continuation byte"
  | .truncated => "unexpected end of data"

/-- The text of a fault: the octet if it is a single one, else the range of positions. -/
def Fault.message (fault : Fault) : String :=
  let place :=
    if fault.count = 1 then
      "byte 0x" ++ hexOctet fault.octet ++ " in position " ++ toString fault.position
    else
      "bytes in position " ++ toString fault.position ++ "-"
        ++ toString (fault.position + fault.count - 1)
  "'utf-8' codec can't decode " ++ place ++ ": " ++ fault.flaw.reason

end Lisplet.Utf8
