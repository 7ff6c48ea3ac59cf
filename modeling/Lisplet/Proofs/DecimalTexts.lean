import Lisplet.Proofs.DecimalNeighbours
import Lisplet.Proofs.NumeralRange

/-!
The texts of decimals.

A decimal is written as digits around a point. Its zeros at the end are dropped first, and zeros are put
where the point needs digits beside it, so the text denotes the same number and has as many significant
digits.

* `significantDigits`, `Decimal.significantDigits`: how many digits a text and a decimal have, without the
  zeros in front and at the end.
* `Decimal.value_trim`, `Decimal.digits_trim`: what is left when the zeros at the end are dropped.
* `IsPointText`: digits on either side of a point.
* `Decimal.laidOut_positional`: what stands in the text of a decimal.
* `Decimal.isPointText_positional`, `Decimal.numeralValue_positional`,
  `Decimal.significantDigits_positional`: its form, its number and its length.
-/

namespace Lisplet

/-- The number of digits of a text, without the zeros in front of all others and behind them. -/
def significantDigits (text : String) : Nat :=
  (Text.trimList (· == '0') (text.toList.filter (· != '.'))).length

/-- A text of digits with one point among them and at least one digit on either side of it. -/
def IsPointText (text : String) : Prop :=
  ∃ whole fraction : List Char, text.toList = whole ++ '.' :: fraction ∧ whole ≠ [] ∧ fraction ≠ [] ∧
    ∀ char ∈ whole ++ fraction, char.isDigit = true

/-! ### Digits of a number -/

theorem length_toDigits {number : Nat} (positive : 0 < number) :
    (Nat.toDigits 10 number).length = digitCount number := by
  obtain ⟨count, counted⟩ := exists_digitCount_eq positive
  have bound (length : Nat) : (Nat.toDigits 10 number).length ≤ length + 1 ↔
      digitCount number ≤ length + 1 := by
    rw [Nat.length_toDigits_le_iff (by decide) (Nat.succ_pos length), digitCount_le_iff]
  have atMost := (bound count).mpr counted.le
  have positiveLength : 0 < (Nat.toDigits 10 number).length := Nat.length_toDigits_pos
  obtain ⟨length, same⟩ := Nat.exists_eq_succ_of_ne_zero positiveLength.ne'
  have atLeast := (bound length).mp same.le
  omega

theorem digitChar_eq_zero_iff {digit : Nat} (proper : digit < 10) :
    Nat.digitChar digit = '0' ↔ digit = 0 :=
  (by decide : ∀ digit < 10, Nat.digitChar digit = '0' ↔ digit = 0) digit proper

/-- The first digit of a positive number is not a zero. -/
theorem head?_toDigits {number : Nat} (positive : 0 < number) :
    ∀ char ∈ (Nat.toDigits 10 number).head?, char ≠ '0' := by
  induction number using Nat.strongRecOn with
  | ind number previous =>
    by_cases small : number < 10
    · rw [Nat.toDigits_of_lt_base small]
      rintro char ⟨⟩
      rw [ne_eq, digitChar_eq_zero_iff small]
      omega
    · rw [Nat.toDigits_of_base_le (by decide) (by omega), List.head?_append_of_ne_nil _ Nat.toDigits_ne_nil]
      exact previous (number / 10) (by omega) (by omega)

/-- The last digit of a number is its remainder. -/
theorem getLast?_toDigits (number : Nat) :
    (Nat.toDigits 10 number).getLast? = some (Nat.digitChar (number % 10)) := by
  by_cases small : number < 10
  · rw [Nat.toDigits_of_lt_base small, Nat.mod_eq_of_lt small]
    rfl
  · rw [Nat.toDigits_of_base_le (by decide) (by omega), List.getLast?_concat]

theorem ofAsciiDigits_zeros (count : Nat) : ofAsciiDigits (List.replicate count '0') = 0 := by
  induction count with
  | zero => rfl
  | succ count previous =>
    rw [List.replicate_succ', ofAsciiDigits_append, previous]
    rfl

namespace Decimal

/-- The number of digits of a decimal, without the zeros at the end. -/
def significantDigits (decimal : Decimal) : Nat :=
  digitCount decimal.trim.digits

/-! ### Without the zeros at the end -/

theorem digitCount_zero : digitCount 0 = 0 :=
  Nat.le_zero.mp (digitCount_le_iff.mpr Nat.one_pos)

theorem dropZeros_spec (fuel number : Nat) :
    number = (dropZeros fuel number).1 * 10 ^ (dropZeros fuel number).2 ∧
      (digitCount number ≤ fuel → number ≠ 0 → (dropZeros fuel number).1 % 10 ≠ 0) := by
  induction fuel generalizing number with
  | zero =>
    refine ⟨by simp [dropZeros], fun none nonzero => ?_⟩
    have zero := digitCount_le_iff.mp none
    omega
  | succ fuel previous =>
    unfold dropZeros
    split_ifs with last
    · obtain ⟨split, ends⟩ := previous (number / 10)
      refine ⟨?_, fun counted _ => ends ?_ (by omega)⟩
      · dsimp only
        rw [Nat.pow_succ, ← Nat.mul_assoc, ← split]
        omega
      · rw [digitCount, if_neg last.1] at counted
        omega
    · refine ⟨by simp, fun _ nonzero tenfold => last ⟨nonzero, tenfold⟩⟩

/-- Dropping the zeros at the end does not change the number. -/
theorem value_trim (decimal : Decimal) : decimal.trim.value = decimal.value := by
  unfold trim
  split_ifs with zero
  · simp [value, zero]
  · obtain ⟨split, _⟩ := dropZeros_spec (digitCount decimal.digits) decimal.digits
    have cast : (decimal.digits : ℚ) = (dropZeros (digitCount decimal.digits) decimal.digits).1 *
        10 ^ (dropZeros (digitCount decimal.digits) decimal.digits).2 := by exact_mod_cast split
    dsimp only [value]
    rw [zpow_add₀ (by norm_num), zpow_natCast, cast]
    ring

/-- The zeros at the end are dropped. -/
theorem digits_trim (decimal : Decimal) :
    decimal.trim.digits = 0 ∧ decimal.trim.exponent = 0 ∨ decimal.trim.digits % 10 ≠ 0 := by
  unfold trim
  split_ifs with zero
  · exact .inl ⟨rfl, rfl⟩
  · exact .inr ((dropZeros_spec _ decimal.digits).2 (Nat.le_refl _) zero)

theorem digits_trim_le (decimal : Decimal) :
    ∃ zeros, decimal.digits = decimal.trim.digits * 10 ^ zeros := by
  unfold trim
  split_ifs with zero
  · exact ⟨0, by simp [zero]⟩
  · exact ⟨_, (dropZeros_spec _ decimal.digits).1⟩

/-- A decimal has no more significant digits than it has digits, and a power of ten has one only. -/
theorem significantDigits_le {decimal : Decimal} {count : Nat} (some : 0 < count)
    (short : decimal.digits ≤ 10 ^ count) : decimal.significantDigits ≤ count := by
  rw [significantDigits, digitCount_le_iff]
  obtain ⟨zeros, split⟩ := decimal.digits_trim_le
  obtain ⟨fewer, rfl⟩ := Nat.exists_eq_succ_of_ne_zero some.ne'
  have power : 0 < 10 ^ fewer := Nat.pow_pos (by decide)
  rw [Nat.pow_succ] at short ⊢
  rcases Nat.eq_zero_or_pos zeros with rfl | more
  · -- Nothing was dropped, so this is not the power of ten.
    rw [Nat.pow_zero, Nat.mul_one] at split
    obtain ⟨zero, _⟩ | last := decimal.digits_trim
    · omega
    · omega
  · obtain ⟨rest, rfl⟩ := Nat.exists_eq_succ_of_ne_zero more.ne'
    have tenfold : decimal.trim.digits * 10 ≤ decimal.digits := by
      rw [split, Nat.pow_succ, Nat.mul_comm (10 ^ rest), ← Nat.mul_assoc]
      exact Nat.le_mul_of_pos_right _ (Nat.pow_pos (by decide))
    omega

/-! ### Around the point -/

/-- The digits of a decimal stand in a text, in order, between zeros that are put in front of them or behind
them, and the point is put so that the number is the same. -/
structure LaidOut (decimal : Decimal) (whole fraction : List Char) : Prop where
  nonempty : whole ≠ [] ∧ fraction ≠ []
  digits : ∃ front back, whole ++ fraction =
    List.replicate front '0' ++ Nat.toDigits 10 decimal.digits ++ List.replicate back '0' ∧
      decimal.exponent = (back : Int) - fraction.length

/-- A point is put among digits so that a given number of them is behind it, and zeros are put in front if
there are too few. -/
theorem insertPoint_eq (places : Nat) (digits : List Char) : ∃ whole fraction,
    insertPoint places digits = whole ++ '.' :: fraction ∧ whole ≠ [] ∧ fraction.length = places ∧
      whole ++ fraction = List.replicate (places + 1 - digits.length) '0' ++ digits := by
  have long : places + 1 ≤ (List.replicate (places + 1 - digits.length) '0' ++ digits).length := by
    rw [List.length_append, List.length_replicate]
    omega
  unfold insertPoint
  dsimp only
  generalize List.replicate (places + 1 - digits.length) '0' ++ digits = padded at long ⊢
  refine ⟨_, _, rfl, ?_, ?_, List.take_append_drop _ _⟩
  · rw [← List.length_pos_iff, List.length_take]
    omega
  · rw [List.length_drop]
    omega

/-- The text of a decimal is laid out around its point. -/
theorem laidOut_positional (decimal : Decimal) : ∃ whole fraction,
    decimal.positional.toList = whole ++ '.' :: fraction ∧ decimal.trim.LaidOut whole fraction := by
  unfold positional
  dsimp only
  split_ifs with integral
  · refine ⟨Nat.toDigits 10 decimal.trim.digits ++ List.replicate decimal.trim.exponent.toNat '0', ['0'],
      by rw [String.toList_ofList], by simp [Nat.toDigits_ne_nil], 0,
      decimal.trim.exponent.toNat + 1, ?_, ?_⟩
    · rw [List.replicate_succ']
      simp
    · simp only [List.length_singleton]
      omega
  · obtain ⟨whole, fraction, text, nonempty, length, digits⟩ :=
      insertPoint_eq (-decimal.trim.exponent).toNat (Nat.toDigits 10 decimal.trim.digits)
    refine ⟨whole, fraction, by rw [String.toList_ofList, text], ⟨nonempty, ?_⟩, _, 0,
      digits.trans (List.append_nil _).symm, ?_⟩
    · rw [← List.length_pos_iff]
      omega
    · omega

theorem LaidOut.isDigit {decimal : Decimal} {whole fraction : List Char}
    (laid : decimal.LaidOut whole fraction) : ∀ char ∈ whole ++ fraction, char.isDigit = true := by
  obtain ⟨front, back, digits, _⟩ := laid.digits
  intro char member
  simp only [digits, List.mem_append, List.mem_replicate] at member
  rcases member with (⟨_, rfl⟩ | digit) | ⟨_, rfl⟩
  · rfl
  · exact isDigit_toDigits _ char digit
  · rfl

/-- A text that is laid out for a decimal denotes the number of the decimal. -/
theorem LaidOut.value_eq {decimal : Decimal} {whole fraction : List Char}
    (laid : decimal.LaidOut whole fraction) :
    value ⟨ofAsciiDigits (whole ++ fraction), -(fraction.length : Int)⟩ = decimal.value := by
  obtain ⟨front, back, digits, places⟩ := laid.digits
  have number : ofAsciiDigits (whole ++ fraction) = decimal.digits * 10 ^ back := by
    rw [digits, ofAsciiDigits_append, ofAsciiDigits_append, ofAsciiDigits_zeros, ofAsciiDigits_zeros,
      ofAsciiDigits_toDigits, List.length_replicate, Nat.zero_mul, Nat.zero_add, Nat.add_zero]
  rw [value, value, number, places, sub_eq_add_neg, zpow_add₀ (by norm_num), zpow_natCast]
  push_cast
  ring

theorem dropWhile_eq_self_of_head? {α : Type} {drop : α → Bool} {items : List α}
    (kept : ∀ item ∈ items.head?, drop item = false) : items.dropWhile drop = items := by
  cases items with
  | nil => rfl
  | cons first rest => exact List.dropWhile_cons_of_neg (by simp [kept first rfl])

/-- Zeros in front of all other digits and behind them are not significant. -/
theorem trimList_zeros (front back : Nat) (digits : List Char) :
    Text.trimList (· == '0') (List.replicate front '0' ++ digits ++ List.replicate back '0') =
      Text.trimList (· == '0') digits := by
  have zero : ∀ count, ∀ char ∈ List.replicate count '0', (char == '0') = true := by
    intro count char member
    rw [List.eq_of_mem_replicate member]
    rfl
  unfold Text.trimList
  rw [List.append_assoc, List.dropWhile_append_of_pos (zero front), List.dropWhile_append]
  split_ifs with none
  · rw [List.isEmpty_iff.mp none, List.dropWhile_eq_nil_iff.mpr (zero back)]
  · rw [List.reverse_append, List.reverse_replicate, List.dropWhile_append_of_pos (zero back)]

/-- The digits of a number without a zero at its end are all significant, and zero has none. -/
theorem trimList_toDigits {number : Nat} (ends : number = 0 ∨ number % 10 ≠ 0) :
    (Text.trimList (· == '0') (Nat.toDigits 10 number)).length = digitCount number := by
  rcases Nat.eq_zero_or_pos number with rfl | positive
  · rw [digitCount_zero]
    rfl
  · have last := getLast?_toDigits number
    have front : (Nat.toDigits 10 number).dropWhile (· == '0') = Nat.toDigits 10 number :=
      dropWhile_eq_self_of_head? fun char first => beq_false_of_ne (head?_toDigits positive char first)
    have back : (Nat.toDigits 10 number).reverse.dropWhile (· == '0') = (Nat.toDigits 10 number).reverse := by
      refine dropWhile_eq_self_of_head? fun char first => beq_false_of_ne ?_
      rw [List.head?_reverse, last, Option.mem_some_iff] at first
      rw [← first, ne_eq, digitChar_eq_zero_iff (Nat.mod_lt _ (by decide))]
      exact ends.resolve_left positive.ne'
    rw [Text.trimList, front, back, List.reverse_reverse, length_toDigits positive]

/-- The text of a decimal has digits on either side of its point. -/
theorem isPointText_positional (decimal : Decimal) : IsPointText decimal.positional := by
  obtain ⟨whole, fraction, text, laid⟩ := decimal.laidOut_positional
  exact ⟨whole, fraction, text, laid.nonempty.1, laid.nonempty.2, laid.isDigit⟩

theorem not_point_of_isDigit {chars : List Char} (all : ∀ char ∈ chars, char.isDigit = true) :
    '.' ∉ chars := fun member => absurd (all '.' member) (by decide)

/-- The text of a decimal denotes its number. -/
theorem numeralValue_positional (decimal : Decimal) :
    numeralValue decimal.positional.toList = decimal.value := by
  obtain ⟨whole, fraction, text, laid⟩ := decimal.laidOut_positional
  have before : '.' ∉ whole :=
    not_point_of_isDigit fun char member => laid.isDigit char (List.mem_append_left _ member)
  rw [text, numeralValue_of_point before, ← value_of_numeral, laid.value_eq, value_trim]

/-- The text of a decimal has as many significant digits. -/
theorem significantDigits_positional (decimal : Decimal) :
    Lisplet.significantDigits decimal.positional = decimal.significantDigits := by
  obtain ⟨whole, fraction, text, laid⟩ := decimal.laidOut_positional
  obtain ⟨front, back, digits, _⟩ := laid.digits
  have kept : (whole ++ fraction).filter (· != '.') = whole ++ fraction := by
    refine List.filter_eq_self.mpr fun char member => ?_
    rw [bne_iff_ne]
    rintro rfl
    exact not_point_of_isDigit laid.isDigit member
  have pointless : (whole ++ '.' :: fraction).filter (· != '.') = whole ++ fraction := by
    rw [← kept, List.filter_append, List.filter_append]
    rfl
  rw [Lisplet.significantDigits, text, pointless, digits, trimList_zeros, Decimal.significantDigits]
  exact trimList_toDigits (decimal.digits_trim.imp_left And.left)

end Decimal

end Lisplet
