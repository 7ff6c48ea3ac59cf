/-!
White space in text.

* `Text.isBlank`: the characters that count as white space when a line is trimmed or cut into words.
* `Text.strip`: a text without the blanks at its two ends.
* `Text.words`: the maximal blank-free pieces of a text, in order.
-/

namespace Lisplet.Text

/-- The characters with the Unicode property of white space, together with the four separators
`U+001C` to `U+001F`. -/
def isBlank (char : Char) : Bool :=
  let point := char.toNat
  (0x9 ≤ point && point ≤ 0xD) || (0x1C ≤ point && point ≤ 0x20) || point == 0x85
    || point == 0xA0 || point == 0x1680 || (0x2000 ≤ point && point ≤ 0x200A)
    || point == 0x2028 || point == 0x2029 || point == 0x202F || point == 0x205F
    || point == 0x3000

/-- Drop the elements of a list that satisfy `drop` from both of its ends. -/
def trimList {α : Type} (drop : α → Bool) (items : List α) : List α :=
  ((items.dropWhile drop).reverse.dropWhile drop).reverse

/-- A text without the blanks at its two ends. -/
def strip (text : String) : String :=
  String.ofList (trimList isBlank text.toList)

/-- The words of a character list; `word` holds the characters of the word being read, last one
first. -/
def wordsFrom (word : List Char) : List Char → List String
  | [] => if word.isEmpty then [] else [String.ofList word.reverse]
  | char :: rest =>
    if isBlank char then
      if word.isEmpty then wordsFrom [] rest
      else String.ofList word.reverse :: wordsFrom [] rest
    else wordsFrom (char :: word) rest

/-- The maximal blank-free pieces of a text, in order. -/
def words (text : String) : List String :=
  wordsFrom [] text.toList

end Lisplet.Text
