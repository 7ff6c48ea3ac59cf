import Lisplet.Form.Numeral
import Lisplet.Proofs.Lexing
import Mathlib.Data.List.TakeWhile

/-!
The texts of numbers.

What is printed for a number is cut out of a text as one token: a numeral, or an identifier if there
is a sign in front or the number is not finite. A numeral denotes numbers without a sign only.

* `numeral?_toDigits`: the digits of a 32-bit integer denote that integer.
* `numeral?_eq_some`: what a numeral denotes is never negative and fits in 32 bits.
* `Decimal.isNumeralText_positional`: a decimal is written as a numeral.
* `Double.isNumeralText_or_isNameText`: the text of a floating-point number is one token.
-/

namespace Lisplet

/-! ### Integers -/

theorem IsNumeralText.append {digits more : List Char} (numeral : IsNumeralText digits)
    (goesOn : ∀ char ∈ more, isNumeral char = true) : IsNumeralText (digits ++ more) := by
  obtain ⟨first, rest, rfl, digit⟩ := numeral.exists_cons
  refine ⟨by simpa using digit, by simp, fun char member => ?_⟩
  exact (List.mem_append.mp member).elim (numeral.2.2 char) (goesOn char)

theorem isNumeralText_of_digits {digits : List Char} (nonempty : digits ≠ [])
    (all : ∀ char ∈ digits, char.isDigit = true) : IsNumeralText digits :=
  ⟨fun char first => all char (List.mem_of_mem_head? first), nonempty,
    fun char member => isNumeral_of_isDigit (all char member)⟩

theorem isDigit_toDigits (number : Nat) : ∀ char ∈ Nat.toDigits 10 number, char.isDigit = true :=
  fun _ member => Nat.isDigit_of_mem_toDigits (by decide) (by decide) member

theorem isNumeralText_toDigits (number : Nat) : IsNumeralText (Nat.toDigits 10 number) :=
  isNumeralText_of_digits Nat.toDigits_ne_nil (isDigit_toDigits number)

theorem ofAsciiDigits_eq (digits : List Char) : ofAsciiDigits digits = Nat.ofDigitChars 10 digits 0 := by
  have same : ∀ (digits : List Char) (value : Nat),
      digits.foldl (fun value digit => value * 10 + asciiDigit digit) value =
        Nat.ofDigitChars 10 digits value := by
    intro digits
    induction digits with
    | nil => simp
    | cons digit digits previous =>
      intro value
      rw [List.foldl_cons, Nat.ofDigitChars_cons, previous, Nat.mul_comm, asciiDigit]
  exact same digits 0

theorem ofAsciiDigits_toDigits (number : Nat) :
    ofAsciiDigits (Nat.toDigits 10 number) = number := by
  rw [ofAsciiDigits_eq, Nat.ofDigitChars_ten_toDigits]

/-- The digits of an integer that fits in 32 bits denote that integer. -/
theorem numeral?_toDigits {number : Nat} (fits : number ≤ 2147483647) :
    numeral? (String.ofList (Nat.toDigits 10 number)) = some (.integer number) := by
  have noPoint : ∀ char ∈ Nat.toDigits 10 number, (char != '.') = true := by
    intro char member
    have digit := isDigit_toDigits number char member
    rw [bne_iff_ne]
    rintro rfl
    exact absurd digit (by decide)
  have short : (Nat.toDigits 10 number).length ≤ 10 := by
    rw [Nat.length_toDigits_le_iff (by decide) (by decide)]
    omega
  have whole : (Nat.toDigits 10 number).takeWhile (· != '.') = Nat.toDigits 10 number := by
    rw [List.takeWhile_eq_self_iff]
    exact noPoint
  have rest : (Nat.toDigits 10 number).dropWhile (· != '.') = [] := by
    rw [List.dropWhile_eq_nil_iff]
    exact noPoint
  have inside : Expr.fits number = true := by
    simp only [Expr.fits, Bool.and_eq_true, decide_eq_true_eq]
    omega
  have notLong : ¬ Text.digitLimit < (Nat.toDigits 10 number).length := by
    rw [Text.digitLimit]
    omega
  simp only [numeral?, String.toList_ofList, rest, whole, integerNumeral?, ofAsciiDigits_toDigits]
  simp [Nat.toDigits_ne_nil, notLong, Expr.ofInt?, inside]

/-! ### What a numeral denotes -/

theorem negative_toSingle (number : Double) :
    (Double.toSingle number).negative = number.negative := by
  unfold Double.toSingle
  split
  · rfl
  · split <;> rfl

theorem negative_toDouble (number : Single) :
    (Single.toDouble number).negative = number.negative := by
  unfold Single.toDouble
  split
  · rfl
  · split <;> rfl

theorem negative_of_ofNumeral? {whole fraction : List Char} {number : Single}
    (denotes : Single.ofNumeral? whole fraction = some number) : number.negative = false := by
  simp only [Single.ofNumeral?, Double.toSingle?] at denotes
  split at denotes
  · cases denotes
  · split at denotes
    · cases denotes
    · cases denotes
      rw [negative_toSingle]
      rfl

/-- What a numeral denotes is a 32-bit integer that is not negative, or a float without a sign. -/
theorem numeral?_eq_some {text : String} {expr : Expr} (denotes : numeral? text = some expr) :
    (∃ number : Nat, number ≤ 2147483647 ∧ expr = .integer number) ∨
      ∃ number : Single, number.negative = false ∧ expr = .float number := by
  simp only [numeral?] at denotes
  split at denotes
  · simp only [integerNumeral?, Expr.ofInt?] at denotes
    split at denotes
    · cases denotes
    · split at denotes
      · rename_i fits
        cases denotes
        simp only [Expr.fits, Bool.and_eq_true, decide_eq_true_eq] at fits
        exact .inl ⟨_, by omega, rfl⟩
      · cases denotes
  · split at denotes
    · cases denotes
    · obtain ⟨number, denoted, rfl⟩ := Option.map_eq_some_iff.mp denotes
      exact .inr ⟨number, negative_of_ofNumeral? denoted, rfl⟩

/-! ### Floating-point numbers -/

namespace Decimal

theorem isNumeralText_insertPoint (places : Nat) {digits : List Char}
    (all : ∀ char ∈ digits, char.isDigit = true) : IsNumeralText (insertPoint places digits) := by
  have padded : ∀ char ∈ List.replicate (places + 1 - digits.length) '0' ++ digits,
      char.isDigit = true := by
    intro char member
    obtain zero | digit := List.mem_append.mp member
    · rw [List.eq_of_mem_replicate zero]
      rfl
    · exact all char digit
  have long : places + 1 ≤ (List.replicate (places + 1 - digits.length) '0' ++ digits).length := by
    rw [List.length_append, List.length_replicate]
    omega
  simp only [insertPoint]
  generalize List.replicate (places + 1 - digits.length) '0' ++ digits = chars at padded long
  have whole : IsNumeralText (chars.take (chars.length - places)) := by
    refine isNumeralText_of_digits ?_ fun char member => padded char (List.mem_of_mem_take member)
    rw [← List.length_pos_iff, List.length_take]
    omega
  refine whole.append fun char member => ?_
  obtain rfl | fraction := List.mem_cons.mp member
  · rfl
  · exact isNumeral_of_isDigit (padded char (List.mem_of_mem_drop fraction))

/-- A decimal is written as a numeral. -/
theorem isNumeralText_positional (decimal : Decimal) : IsNumeralText decimal.positional.toList := by
  simp only [positional]
  split
  · rw [String.toList_ofList, List.append_assoc]
    refine (isNumeralText_toDigits _).append fun char member => ?_
    obtain zero | point := List.mem_append.mp member
    · rw [List.eq_of_mem_replicate zero]
      rfl
    · have all : ['.', '0'].all isNumeral = true := by decide
      exact List.all_eq_true.mp all char point
  · rw [String.toList_ofList]
    exact isNumeralText_insertPoint _ (isDigit_toDigits _)

end Decimal

theorem endsIdentifier_of_isNumeral {char : Char} (numeral : isNumeral char = true) :
    endsIdentifier char = false := by
  cases ends : endsIdentifier char with
  | false => rfl
  | true =>
    rw [not_isNumeral_of_endsIdentifier char ends] at numeral
    cases numeral

/-- A numeral with a sign in front is an identifier. -/
theorem IsNumeralText.isNameText_minus {digits : List Char} (numeral : IsNumeralText digits) :
    IsNameText ('-' :: digits) := by
  refine ⟨by simp, by simp, fun char member => ?_⟩
  obtain rfl | digit := List.mem_cons.mp member
  · decide
  · exact endsIdentifier_of_isNumeral (numeral.2.2 char digit)

/-- The text of a number is a numeral if the number is finite and has no sign, else an identifier.
-/
theorem Double.isNumeralText_or_isNameText {number : Double} {text : String}
    (printed : Double.text number = .ok text) :
    (number.negative = false ∧ IsNumeralText text.toList) ∨ IsNameText text.toList := by
  unfold Double.text at printed
  by_cases notNumber : number.isNaN = true
  · rw [if_pos notNumber] at printed
    cases printed
    exact .inr (by decide)
  by_cases infinite : number.isInfinite = true
  · rw [if_neg notNumber, if_pos infinite] at printed
    cases printed
    exact .inr (by cases number.negative <;> decide)
  rw [if_neg notNumber, if_neg infinite] at printed
  cases found : Double.textDecimal number (List.range' 1 textDigits) with
  | error candidate =>
    rw [found] at printed
    cases printed
  | ok decimal =>
    rw [found] at printed
    cases printed
    have numeral := decimal.isNumeralText_positional
    rw [String.toList_append]
    cases number.negative with
    | false => exact .inl ⟨rfl, by simpa using numeral⟩
    | true => exact .inr numeral.isNameText_minus

end Lisplet
