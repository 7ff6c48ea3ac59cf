import Lisplet.Proofs.Feeding
import Lisplet.Proofs.TwoRoundings
import Mathlib.Tactic.FieldSimp

/-!
The numerals that denote a number.

A numeral without a point is read as an integer, one with a point as a float, and all others are refused,
as are those whose number is too large. For a float that is decided after two roundings, but in the end it
is a plain bound on the number that the numeral denotes.

* `numeralValue`: the number that a numeral denotes.
* `IsIntegerNumeral`, `IsFloatNumeral`: the numerals that denote an integer and a float.
* `numeral?_of_no_point`, `numeral?_of_one_point`, `numeral?_of_more_points`: what a numeral is read as, by
  its points.
* `Nest.number_read_exactly_in_range`: what comes of a numeral in a text.
-/

namespace Lisplet

/-! ### The number that a numeral denotes -/

/-- The number that digits behind a point denote. -/
def fractionValue : List Char → ℚ
  | [] => 0
  | digit :: digits => (asciiDigit digit + fractionValue digits) / 10

/-- The number that a numeral denotes: the digits in front of the first point and those behind it. -/
def numeralValue (chars : List Char) : ℚ :=
  Nat.ofDigitChars 10 (chars.takeWhile (· != '.')) 0 +
    fractionValue ((chars.dropWhile (· != '.')).drop 1)

/-- A numeral without a point that is not too long for an integer and denotes one of 32 bits. -/
def IsIntegerNumeral (chars : List Char) : Prop :=
  chars.count '.' = 0 ∧ chars.length ≤ 4300 ∧ numeralValue chars ≤ 2 ^ 31 - 1

/-- A numeral with one point that denotes a number that is not too large for a float. -/
def IsFloatNumeral (chars : List Char) : Prop :=
  chars.count '.' = 1 ∧ numeralValue chars < 2 ^ 128 - 2 ^ 103 - 2 ^ 74

theorem foldl_digits (value : Nat) (digits : List Char) :
    digits.foldl (fun value digit => value * 10 + asciiDigit digit) value =
      value * 10 ^ digits.length + ofAsciiDigits digits := by
  unfold ofAsciiDigits
  induction digits generalizing value with
  | nil => simp
  | cons digit digits previous =>
    rw [List.foldl_cons, List.foldl_cons, previous, previous (0 * 10 + asciiDigit digit),
      List.length_cons, Nat.pow_succ]
    ring

theorem ofAsciiDigits_append (whole fraction : List Char) :
    ofAsciiDigits (whole ++ fraction) =
      ofAsciiDigits whole * 10 ^ fraction.length + ofAsciiDigits fraction := by
  rw [ofAsciiDigits, List.foldl_append, foldl_digits]
  rfl

theorem fractionValue_eq (digits : List Char) :
    fractionValue digits = ofAsciiDigits digits / 10 ^ digits.length := by
  induction digits with
  | nil => simp [fractionValue, ofAsciiDigits]
  | cons digit digits previous =>
    have split := ofAsciiDigits_append [digit] digits
    rw [List.singleton_append] at split
    have first : ofAsciiDigits [digit] = asciiDigit digit := by simp [ofAsciiDigits]
    rw [fractionValue, previous, split, first, List.length_cons]
    push_cast
    field_simp
    ring

/-- The numerals of one point and those of none, as the decimals that are rounded for them. -/
theorem value_of_numeral (whole fraction : List Char) :
    Decimal.value ⟨ofAsciiDigits (whole ++ fraction), -(fraction.length : Int)⟩ =
      Nat.ofDigitChars 10 whole 0 + fractionValue fraction := by
  rw [Decimal.value, ofAsciiDigits_append, fractionValue_eq, zpow_neg, zpow_natCast, ← ofAsciiDigits_eq]
  push_cast
  field_simp

/-! ### Numerals by their points -/

section Points

variable {chars whole fraction : List Char}

theorem takeWhile_of_no_point (unpointed : '.' ∉ chars) : chars.takeWhile (· != '.') = chars :=
  List.takeWhile_eq_self_iff.mpr fun char member => by
    rw [bne_iff_ne]
    rintro rfl
    exact unpointed member

theorem dropWhile_of_no_point (unpointed : '.' ∉ chars) : chars.dropWhile (· != '.') = [] :=
  List.dropWhile_eq_nil_iff.mpr fun char member => by
    rw [bne_iff_ne]
    rintro rfl
    exact unpointed member

theorem takeWhile_of_point (before : '.' ∉ whole) :
    (whole ++ '.' :: fraction).takeWhile (· != '.') = whole := by
  rw [List.takeWhile_append_of_pos (List.takeWhile_eq_self_iff.mp (takeWhile_of_no_point before))]
  simp

theorem dropWhile_of_point (before : '.' ∉ whole) :
    (whole ++ '.' :: fraction).dropWhile (· != '.') = '.' :: fraction := by
  rw [List.dropWhile_append_of_pos (List.takeWhile_eq_self_iff.mp (takeWhile_of_no_point before))]
  simp

/-- The first point of a numeral, if there is one. -/
theorem no_point_or_exists (chars : List Char) : '.' ∉ chars ∨
    ∃ whole fraction, chars = whole ++ '.' :: fraction ∧ '.' ∉ whole := by
  by_cases point : '.' ∈ chars
  · exact .inr (List.eq_append_cons_of_mem point)
  · exact .inl point

theorem numeralValue_of_no_point (unpointed : '.' ∉ chars) :
    numeralValue chars = Nat.ofDigitChars 10 chars 0 := by
  rw [numeralValue, takeWhile_of_no_point unpointed, dropWhile_of_no_point unpointed]
  simp [fractionValue]

theorem numeralValue_of_point (before : '.' ∉ whole) :
    numeralValue (whole ++ '.' :: fraction) = Nat.ofDigitChars 10 whole 0 + fractionValue fraction := by
  rw [numeralValue, takeWhile_of_point before, dropWhile_of_point before]
  rfl

end Points

/-! ### What a numeral is read as -/

section Reading

variable {text : String} {whole fraction : List Char}

theorem numeral?_of_no_point (nonempty : text.toList ≠ []) (unpointed : '.' ∉ text.toList) :
    numeral? text = if text.toList.length ≤ Text.digitLimit then
      Expr.ofInt? (Nat.ofDigitChars 10 text.toList 0) else none := by
  simp only [numeral?, takeWhile_of_no_point unpointed, dropWhile_of_no_point unpointed, integerNumeral?,
    ofAsciiDigits_eq, List.isEmpty_eq_false_iff.mpr nonempty, Bool.false_or, decide_eq_true_eq,
    ← Nat.not_le, ite_not]

theorem numeral?_of_one_point (split : text.toList = whole ++ '.' :: fraction) (before : '.' ∉ whole)
    (behind : '.' ∉ fraction) :
    numeral? text = (Single.ofNumeral? whole fraction).map .float := by
  have single : fraction.contains '.' = false := by
    rwa [← Bool.not_eq_true, List.contains_iff_mem]
  simp only [numeral?, split, takeWhile_of_point before, dropWhile_of_point before, single,
    Bool.false_eq_true, if_false]

theorem numeral?_of_more_points (split : text.toList = whole ++ '.' :: fraction)
    (before : '.' ∉ whole) (behind : '.' ∈ fraction) : numeral? text = none := by
  have more : fraction.contains '.' = true := List.contains_iff_mem.mpr behind
  simp only [numeral?, split, dropWhile_of_point before, more, if_true]

end Reading

/-- What a numeral is read as: one of the three, by the number that it denotes. -/
inductive ReadsNumeral (chars : List Char) : Option Expr → Prop
  | integer {value : Int} (inRange : IsIntegerNumeral chars) (denoted : (value : ℚ) = numeralValue chars) :
      ReadsNumeral chars (some (.integer value))
  | float {number : Single} (inRange : IsFloatNumeral chars)
      (denoted : Single.IsRounded (numeralValue chars) number) :
      ReadsNumeral chars (some (.float number))
  | neither (notInteger : ¬IsIntegerNumeral chars) (notFloat : ¬IsFloatNumeral chars) :
      ReadsNumeral chars none

theorem readsNumeral_of_no_point {text : String} (nonempty : text.toList ≠ [])
    (unpointed : '.' ∉ text.toList) : ReadsNumeral text.toList (numeral? text) := by
  have count : text.toList.count '.' = 0 := List.count_eq_zero_of_not_mem unpointed
  have notFloat : ¬IsFloatNumeral text.toList := fun float => by
    rw [IsFloatNumeral, count] at float
    exact absurd float.1 (by decide)
  have value := numeralValue_of_no_point unpointed
  rw [numeral?_of_no_point nonempty unpointed]
  generalize Nat.ofDigitChars 10 text.toList 0 = number at value ⊢
  have bound : (number : ℚ) ≤ 2 ^ 31 - 1 ↔ number ≤ 2147483647 := by
    have same : (2 ^ 31 - 1 : ℚ) = (2147483647 : Nat) := by norm_num
    rw [same, Nat.cast_le]
  have inRange : IsIntegerNumeral text.toList ↔
      text.toList.length ≤ Text.digitLimit ∧ number ≤ 2147483647 := by
    rw [IsIntegerNumeral, count, value, bound, Text.digitLimit]
    exact and_iff_right rfl
  have fits : Expr.fits number = true ↔ number ≤ 2147483647 := by
    simp only [Expr.fits, Bool.and_eq_true, decide_eq_true_eq]
    omega
  by_cases short : text.toList.length ≤ Text.digitLimit
  · by_cases small : number ≤ 2147483647
    · rw [if_pos short, Expr.ofInt?, if_pos (fits.mpr small)]
      exact .integer (inRange.mpr ⟨short, small⟩) (by rw [value]; norm_cast)
    · rw [if_pos short, Expr.ofInt?, if_neg (mt fits.mp small)]
      exact .neither (fun integer => small (inRange.mp integer).2) notFloat
  · rw [if_neg short]
    exact .neither (fun integer => short (inRange.mp integer).1) notFloat

theorem readsNumeral_of_point {text : String} {whole fraction : List Char}
    (split : text.toList = whole ++ '.' :: fraction) (before : '.' ∉ whole) :
    ReadsNumeral text.toList (numeral? text) := by
  have count : text.toList.count '.' = fraction.count '.' + 1 := by
    rw [split, List.count_append, List.count_eq_zero_of_not_mem before, List.count_cons_self, Nat.zero_add]
  have notInteger : ¬IsIntegerNumeral text.toList := fun integer => by
    rw [IsIntegerNumeral, count] at integer
    exact absurd integer.1 (Nat.succ_ne_zero _)
  by_cases behind : '.' ∈ fraction
  · rw [numeral?_of_more_points split before behind]
    refine .neither notInteger fun float => ?_
    have more := List.count_pos_iff.mpr behind
    have one := float.1
    omega
  · have single : text.toList.count '.' = 1 := by
      rw [count, List.count_eq_zero_of_not_mem behind]
    have value : Decimal.value ⟨ofAsciiDigits (whole ++ fraction), -(fraction.length : Int)⟩ =
        numeralValue text.toList := by
      rw [value_of_numeral, split, numeralValue_of_point before]
    have sign : 0 ≤ numeralValue text.toList := value ▸ Decimal.value_nonneg _
    rw [numeral?_of_one_point split before behind, Single.ofNumeral?_eq, value]
    by_cases finite : Single.codeOf (numeralValue text.toList) < Format.single.infinity
    · rw [if_pos finite]
      exact .float ⟨single, (Single.codeOf_lt_infinity_iff sign).mp finite⟩
        ((Single.isRounded_iff sign).mpr ⟨finite, rfl⟩)
    · rw [if_neg finite]
      exact .neither notInteger fun float =>
        finite ((Single.codeOf_lt_infinity_iff sign).mpr float.2)

/-- A numeral is read as the number that it denotes, rounded if it has a point, unless that is too large.
-/
theorem readsNumeral_numeral? {text : String} (nonempty : text.toList ≠ []) :
    ReadsNumeral text.toList (numeral? text) := by
  obtain unpointed | ⟨whole, fraction, split, before⟩ := no_point_or_exists text.toList
  · exact readsNumeral_of_no_point nonempty unpointed
  · exact readsNumeral_of_point split before

/-- **A numeral is read exactly in the range of its numbers.** A token of digits and points is read as an
integer just if it has no point, at most 4300 characters and denotes a number of at most 31 bits, and then
it is that number. It is read as a float just if it has one point and denotes a number below
`2 ^ 128 - 2 ^ 103 - 2 ^ 74`, and then it is that number, rounded to the 64-bit format and then to the
32-bit format, and finite. Every other token is refused, and the flaw has its text and its place. -/
theorem Nest.number_read_exactly_in_range (limit : Int) (nest : Nest) (token : Token)
    (shape : token.shape = .number) (numeral : IsNumeralText token.text.toList) :
    ((∃ value, nest.feed limit token = .ok (nest.push (.integer value))) ↔
      IsIntegerNumeral token.text.toList) ∧
    (∀ value, nest.feed limit token = .ok (nest.push (.integer value)) →
      (value : ℚ) = numeralValue token.text.toList) ∧
    ((∃ number, nest.feed limit token = .ok (nest.push (.float number))) ↔
      IsFloatNumeral token.text.toList) ∧
    (∀ number, nest.feed limit token = .ok (nest.push (.float number)) →
      Single.IsRounded (numeralValue token.text.toList) number) ∧
    (¬IsIntegerNumeral token.text.toList → ¬IsFloatNumeral token.text.toList →
      nest.feed limit token = .error ⟨.malformedNumber token.text, token.start, token.stop⟩) := by
  have reads := readsNumeral_numeral? numeral.2.1
  have apart : IsIntegerNumeral token.text.toList → ¬IsFloatNumeral token.text.toList :=
    fun integer float => absurd (integer.1.symm.trans float.1) (by decide)
  simp only [feed, shape]
  generalize numeral? token.text = read at reads ⊢
  cases reads with
  | @integer value inRange denoted =>
    refine ⟨⟨fun _ => inRange, fun _ => ⟨value, rfl⟩⟩, ?_, ?_, ?_,
      fun notInteger => absurd inRange notInteger⟩
    · rintro other ⟨⟩
      exact denoted
    · exact iff_of_false (by rintro ⟨_, ⟨⟩⟩) (apart inRange)
    · rintro number ⟨⟩
  | @float number inRange denoted =>
    refine ⟨?_, ?_, ⟨fun _ => inRange, fun _ => ⟨number, rfl⟩⟩, ?_, fun _ notFloat => absurd inRange notFloat⟩
    · exact iff_of_false (by rintro ⟨_, ⟨⟩⟩) (fun integer => apart integer inRange)
    · rintro value ⟨⟩
    · rintro other ⟨⟩
      exact denoted
  | neither notInteger notFloat =>
    refine ⟨iff_of_false (by rintro ⟨_, ⟨⟩⟩) notInteger, ?_,
      iff_of_false (by rintro ⟨_, ⟨⟩⟩) notFloat, ?_, fun _ _ => rfl⟩
    · rintro value ⟨⟩
    · rintro number ⟨⟩

/-- The smallest number that is too large is refused, and one that is a millionth smaller is read. -/
theorem Nest.number_read_exactly_in_range_boundary :
    let large : Token := ⟨.number, "340282356779733642748073463979561713664.0", 3, 44⟩
    let small : Token := ⟨.number, "340282356779733642748073463979561713663.999999", 3, 49⟩
    IsNumeralText large.text.toList ∧ IsNumeralText small.text.toList ∧
      feed 0 {} large = .error ⟨.malformedNumber large.text, 3, 44⟩ ∧
      ∃ number, feed 0 {} small = .ok ⟨[.float number], []⟩ ∧
        Single.IsRounded (numeralValue small.text.toList) number := by
  intro large small
  have numeralLarge : IsNumeralText large.text.toList := by decide +kernel
  have numeralSmall : IsNumeralText small.text.toList := by decide +kernel
  have refused := (number_read_exactly_in_range 0 {} large rfl numeralLarge).2.2.2.2
  have accepted := number_read_exactly_in_range 0 {} small rfl numeralSmall
  have notInteger : ¬IsIntegerNumeral large.text.toList := fun integer => absurd integer.1 (by decide)
  have notFloat : ¬IsFloatNumeral large.text.toList := fun float => absurd float.2 (by decide +kernel)
  have float : IsFloatNumeral small.text.toList := ⟨by decide, by decide +kernel⟩
  obtain ⟨number, read⟩ := accepted.2.2.1.mpr float
  exact ⟨numeralLarge, numeralSmall, refused notInteger notFloat, number, read,
    accepted.2.2.2.1 number read⟩

end Lisplet
