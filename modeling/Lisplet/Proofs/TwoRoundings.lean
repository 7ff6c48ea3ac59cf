import Lisplet.Proofs.NearestCodes
import Mathlib.Tactic.NormNum

/-!
Rounding twice.

A decimal is read as a 32-bit number by way of the 64-bit format, so it is rounded twice. All 32-bit
magnitudes and the middles between them have 64-bit codes. So the second rounding passes from one code to
the next just where the first one arrives at such a middle, and that is half a 64-bit step in front of it
or behind it.

* `Decimal.value`: the number that a decimal stands for.
* `Single.codeOf`: the code of the 32-bit number that a magnitude is rounded to.
* `Single.IsRounded`: the number that a magnitude is to be rounded to.
* `Single.codeOf_le_iff`: the magnitudes that are rounded to at most a given code.
* `Single.codeOf_lt_infinity_iff`: the magnitudes that are not too large.
* `Double.toSingle_ofDecimal`: what is read for a decimal.
-/

namespace Lisplet

open Format (single double)

/-! ### Decimals -/

namespace Decimal

/-- The number that a decimal stands for. -/
def value (decimal : Decimal) : ℚ :=
  decimal.digits * 10 ^ decimal.exponent

theorem value_nonneg (decimal : Decimal) : 0 ≤ decimal.value :=
  mul_nonneg (Nat.cast_nonneg _) (zpow_nonneg (by norm_num) _)

theorem denominator_pos (decimal : Decimal) : 0 < decimal.denominator :=
  Nat.pow_pos (by decide)

/-- A power of ten as a quotient of two powers of which one is one. -/
theorem ten_zpow_eq (exponent : Int) :
    (10 : ℚ) ^ exponent = 10 ^ exponent.toNat / 10 ^ (-exponent).toNat := by
  rw [eq_div_iff (by positivity), ← zpow_natCast, ← zpow_natCast, ← zpow_add₀ (by norm_num)]
  congr 1
  omega

theorem numerator_div_denominator (decimal : Decimal) :
    (decimal.numerator : ℚ) / decimal.denominator = decimal.value := by
  rw [value, ten_zpow_eq, numerator, denominator]
  simp only [Nat.pow_eq]
  push_cast
  rw [mul_div_assoc]

theorem toCode_eq_nearest (format : Format) (decimal : Decimal) :
    decimal.toCode format = format.nearest decimal.value := by
  rw [toCode, Format.round_eq_nearest _ decimal.denominator_pos, numerator_div_denominator]

end Decimal

/-! ### One rounding after the other -/

namespace Single

/-- The code of the 32-bit number that a magnitude is rounded to, by way of the 64-bit format. -/
def codeOf (magnitude : ℚ) : Nat :=
  single.nearest (double.value (double.nearest magnitude))

/-- The number is the one that a magnitude is to be rounded to: finite, without a sign, and the nearest one
to the nearest 64-bit number. -/
def IsRounded (magnitude : ℚ) (number : Single) : Prop :=
  number.negative = false ∧ number.isFinite = true ∧ ∃ wide < double.infinity,
    double.NearestEven magnitude wide ∧ single.NearestEven (double.value wide) number.code

theorem single_wide : 0 < single.fractionBits := by decide

theorem double_wide : 0 < double.fractionBits := by decide

theorem codeOf_mono {magnitude larger : ℚ} (sign : 0 ≤ magnitude) (ordered : magnitude ≤ larger) :
    codeOf magnitude ≤ codeOf larger :=
  Format.nearest_mono (double.value_nonneg _)
    (double.value_strictMono.monotone (Format.nearest_mono sign ordered))

/-- A number that is infinite after the first rounding is so after the second one. -/
theorem nearest_infinite_wide : single.nearest (double.value double.infinity) = single.infinity := by
  unfold Format.value
  rw [← Format.round_eq_nearest _ double.unitsPerOne_pos]
  decide +kernel

theorem nearest_lt_infinity {magnitude : ℚ} (finite : codeOf magnitude < single.infinity) :
    double.nearest magnitude < double.infinity := by
  refine lt_of_le_of_ne (Format.nearest_le_infinity _) fun infinite => ?_
  rw [codeOf, infinite, nearest_infinite_wide] at finite
  exact lt_irrefl _ finite

theorem isRounded_iff {magnitude : ℚ} (sign : 0 ≤ magnitude) {number : Single} :
    IsRounded magnitude number ↔
      codeOf magnitude < single.infinity ∧ number = ⟨false, codeOf magnitude⟩ := by
  obtain ⟨negative, code⟩ := number
  simp only [IsRounded, Floating.isFinite, decide_eq_true_eq, Floating.mk.injEq,
    Format.nearestEven_iff double_wide sign]
  constructor
  · rintro ⟨rfl, finite, wide, _, rfl, narrow⟩
    rw [Format.nearestEven_iff single_wide (double.value_nonneg _)] at narrow
    exact ⟨by rwa [codeOf, ← narrow], rfl, narrow⟩
  · rintro ⟨finite, rfl, rfl⟩
    exact ⟨rfl, finite, _, nearest_lt_infinity finite, rfl,
      Format.nearestEven_nearest single_wide (double.value_nonneg _)⟩

/-- A 64-bit code lies where the second rounding passes from a code to the next one. The first rounding
arrives there half a step in front of it, or half a step behind it, as the even one of the two codes asks
for. -/
theorem codeOf_le_iff {magnitude : ℚ} (sign : 0 ≤ magnitude) {code before : Nat}
    (finite : code < single.infinity) (finiteWide : before + 1 < double.infinity)
    (odd : before % 2 = 1) (middle : double.value (before + 1) = single.middle code) :
    codeOf magnitude ≤ code ↔
      code % 2 = 0 ∧ magnitude ≤ double.middle (before + 1) ∨
        code % 2 = 1 ∧ magnitude < double.middle before := by
  have order := double.value_strictMono
  rw [codeOf, Format.nearest_le_iff single_wide (double.value_nonneg _) finite, ← middle,
    order.lt_iff_lt, order.injective.eq_iff, Nat.lt_succ_iff]
  rcases Nat.mod_two_eq_zero_or_one code with even | uneven
  · have both : double.nearest magnitude ≤ before ∨ double.nearest magnitude = before + 1 ↔
        double.nearest magnitude ≤ before + 1 := by omega
    have evenWide : (before + 1) % 2 = 0 := by omega
    simp only [even, and_true, both, Format.nearest_le_iff double_wide sign finiteWide, evenWide,
      ← le_iff_lt_or_eq, true_and, zero_ne_one, false_and, or_false]
  · have within : before < double.infinity := by omega
    simp only [uneven, one_ne_zero, and_false, or_false, false_and, false_or, true_and,
      Format.nearest_le_iff double_wide sign within, odd]

/-! ### The magnitudes that are too large -/

/-- The last 64-bit code in front of the middle between the largest finite 32-bit magnitude and the next
power of two. -/
def lastNarrow : Nat := 1151 * Nat.pow 2 52 - Nat.pow 2 28 - 1

/-- The magnitudes below `2 ^ 128 - 2 ^ 103 - 2 ^ 74` are rounded to finite numbers, and only they. -/
theorem codeOf_lt_infinity_iff {magnitude : ℚ} (sign : 0 ≤ magnitude) :
    codeOf magnitude < single.infinity ↔ magnitude < 2 ^ 128 - 2 ^ 103 - 2 ^ 74 := by
  have middle : double.value (lastNarrow + 1) = single.middle (single.infinity - 1) := by
    have cross : double.units (lastNarrow + 1) * (2 * single.unitsPerOne) =
        (single.units (single.infinity - 1) + single.units (single.infinity - 1 + 1)) *
          double.unitsPerOne := by decide +kernel
    have one := single.unitsPerOne_cast_pos
    unfold Format.middle Format.value
    rw [← add_div, div_div, div_eq_div_iff double.unitsPerOne_cast_pos.ne' (by linarith), mul_comm _ (2 : ℚ)]
    exact_mod_cast cross
  have bound : double.middle lastNarrow = 2 ^ 128 - 2 ^ 103 - 2 ^ 74 := by
    have sum : double.units lastNarrow + double.units (lastNarrow + 1) =
        (2 * 2 ^ 128 - 2 * 2 ^ 103 - 2 * 2 ^ 74) * double.unitsPerOne := by decide +kernel
    have cast : (double.units lastNarrow : ℚ) + double.units (lastNarrow + 1) =
        (2 * 2 ^ 128 - 2 * 2 ^ 103 - 2 * 2 ^ 74) * double.unitsPerOne := by
      have number : (2 * 2 ^ 128 - 2 * 2 ^ 103 - 2 * 2 ^ 74 : ℚ) =
          ((2 * 2 ^ 128 - 2 * 2 ^ 103 - 2 * 2 ^ 74 : Nat) : ℚ) := by norm_num
      rw [number]
      exact_mod_cast sum
    unfold Format.middle Format.value
    rw [← add_div, cast, mul_div_cancel_right₀ _ double.unitsPerOne_cast_pos.ne']
    ring
  have last : codeOf magnitude < single.infinity ↔ codeOf magnitude ≤ single.infinity - 1 := by
    have positive : 0 < single.infinity := by decide
    omega
  have uneven : (single.infinity - 1) % 2 = 1 := by decide
  rw [last, codeOf_le_iff sign (by decide) (by decide) (by decide) middle, bound]
  simp [uneven]

end Single

/-! ### Reading a decimal -/

/-- Both roundings of a 64-bit number that is no more than infinite. -/
theorem Double.toSingle_of_le {number : Double} (real : number.code ≤ double.infinity) :
    Double.toSingle number = ⟨number.negative, single.nearest (double.value number.code)⟩ := by
  have notNaN : number.isNaN = false := by
    simp only [Floating.isNaN, decide_eq_false_iff_not]
    omega
  rw [Double.toSingle, notNaN, if_neg Bool.false_ne_true]
  by_cases infinite : number.isInfinite = true
  · have same : number.code = double.infinity := by
      simpa only [Floating.isInfinite, decide_eq_true_eq] using infinite
    rw [if_pos infinite, same, Single.nearest_infinite_wide]
  · rw [if_neg infinite, Format.round_eq_nearest _ double.unitsPerOne_pos]
    rfl

/-- A decimal is read as the number that its magnitude is rounded to. -/
theorem Double.toSingle_ofDecimal (negative : Bool) (decimal : Decimal) :
    Double.toSingle (Double.ofDecimal negative decimal) = ⟨negative, Single.codeOf decimal.value⟩ := by
  rw [Double.toSingle_of_le (Format.round_le_infinity _ _ _), Single.codeOf,
    ← Decimal.toCode_eq_nearest]
  rfl

/-- A numeral denotes the number that its magnitude is rounded to, if that is a finite one. -/
theorem Single.ofNumeral?_eq (whole fraction : List Char) :
    let decimal : Decimal := ⟨ofAsciiDigits (whole ++ fraction), -(fraction.length : Int)⟩
    Single.ofNumeral? whole fraction =
      if Single.codeOf decimal.value < single.infinity then some ⟨false, Single.codeOf decimal.value⟩
      else none := by
  intro decimal
  have code : (Double.ofDecimal false decimal).code = double.nearest decimal.value :=
    decimal.toCode_eq_nearest double
  have narrow := Double.toSingle_ofDecimal false decimal
  show (if (Double.ofDecimal false decimal).isInfinite then none
    else Double.toSingle? (Double.ofDecimal false decimal)) = _
  simp only [Double.toSingle?, narrow, Floating.isInfinite, decide_eq_true_eq, code]
  have atMost : Single.codeOf decimal.value ≤ single.infinity := Format.nearest_le_infinity _
  by_cases finite : Single.codeOf decimal.value < single.infinity
  · have finiteWide := Single.nearest_lt_infinity finite
    simp [finite, finite.ne, finiteWide.ne]
  · have infinite : Single.codeOf decimal.value = single.infinity := by omega
    by_cases infiniteWide : double.nearest decimal.value = double.infinity
    · simp [infinite, infiniteWide]
    · simp [infinite, infiniteWide]

end Lisplet
