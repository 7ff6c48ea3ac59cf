import Lisplet.Error.Basic
import Lisplet.Host

/-!
Padding: texts made of equal pieces.

`padding` repeats a piece, as the indentation of a step and the mark below an offending line ask for. The
count may be any integer, so a repetition may be too large to be made, and then it breaks down.

* `padding_eq_ok`: a repetition that is no longer than a text at hand is always made.
-/

namespace Lisplet

/-- The bound of the 64-bit range. -/
def indexBound : Int := 9223372036854775808

/-- The integers that fit in 64 bits. -/
def isIndex (value : Int) : Bool :=
  -indexBound ≤ value && value < indexBound

/-- A text of `count` equal pieces; none if the count is negative. A text as long as `room`, which is the
length of a text at hand, can always be made, and so can one that the memory holds. -/
def padding [Host] (room : Nat) (piece : String) (count : Int) : Except Fault String :=
  let size := count.toNat * piece.length
  if count < -indexBound then .error (.breakdown .countRange)
  else if size ≤ room || size ≤ Host.textCapacity then
    .ok (String.join (List.replicate count.toNat piece))
  else if indexBound ≤ count then .error (.breakdown .countRange)
  else if indexBound ≤ size then .error (.breakdown .textLength)
  else .error (.breakdown .memory)

/-- A repetition that is no longer than a text at hand is always made. -/
theorem padding_eq_ok [Host] (room : Nat) (piece : String) (count : Int) (natural : 0 ≤ count)
    (short : count.toNat * piece.length ≤ room) :
    padding room piece count = .ok (String.join (List.replicate count.toNat piece)) := by
  have bounded : ¬ count < -indexBound := by
    unfold indexBound
    omega
  simp [padding, bounded, short]

end Lisplet
