import Lisplet.Proofs.Literals
import Lisplet.Proofs.Rounding
import Mathlib.Algebra.Order.Field.Rat
import Mathlib.Tactic.NormNum

/-!
The numbers that have no text.

The text of a number is sought among decimals with more and more digits. The search breaks down at a
candidate that is rounded up beyond the 32-bit format. That happens with four digits, `3.403e38`, and it
happens for the finite numbers above `3.4025e38` and for no others: up to there no candidate exceeds
`3.4025e38` itself, which still fits.

* `Floating.magnitude`: the magnitude of a number.
* `Single.lastWritten`: the largest code that has a text.
* `Single.magnitude_gt_iff`: the codes behind it are those above `3.4025e38`.
* `Single.toSingle?_of_candidate`: a candidate up to `3.4025e38` fits in the 32-bit format.
* `Single.text_ok_of_le`, `Single.text_error_of_gt`: the numbers with a text and those without.
* `Single.text_eq_error_iff`: the finite numbers above `3.4025e38` have no text, and only they.
-/

namespace Lisplet

/-- The magnitude of a finite number. -/
def Floating.magnitude {format : Format} (number : Floating format) : ℚ :=
  (format.units number.code : ℚ) / format.unitsPerOne

namespace Double

variable {number : Double} {count : Nat} {counts : List Nat}

/-- The search goes on behind a candidate that reads back as another number. -/
theorem textDecimal_of_some {single : Single}
    (fits : toSingle? (ofDecimal number.negative (nearestDecimal number count)) = some single) :
    textDecimal number (count :: counts) =
      if (Single.toDouble single).sameValue number then .ok (nearestDecimal number count)
      else textDecimal number counts := by
  rw [textDecimal, fits]
  rfl

theorem textDecimal_of_none
    (tooLarge : toSingle? (ofDecimal number.negative (nearestDecimal number count)) = none) :
    textDecimal number (count :: counts) =
      .error (ofDecimal number.negative (nearestDecimal number count)) := by
  rw [textDecimal, tooLarge]
  rfl

end Double

namespace Single

/-- The bound above which no number has a text. -/
def writtenBound : Nat := 340250000000000000000000000000000000000

/-- The largest code that has a text. -/
def lastWritten : Nat := 2139093444

/-- The magnitude of the largest code that has a text, which is an integer. -/
def lastMagnitude : Nat := 340249996195211035397377987618715729920

/-- The magnitude of the next code, which has no text. -/
def nextMagnitude : Nat := 340250016477620639049048411565967015936

/-- The largest finite magnitude. -/
def topMagnitude : Nat := 340282346638528859811704183484516925440

/-- The code of the same number in the 64-bit format, for a finite one. -/
def wideCode (code : Nat) : Nat :=
  Format.double.round (Format.single.units code) Format.single.unitsPerOne

theorem wideCode_mono {first second : Nat} (ordered : first ≤ second) :
    wideCode first ≤ wideCode second := by
  have positive := Format.single.unitsPerOne_pos
  refine Format.round_mono _ positive positive ?_
  exact Nat.mul_le_mul_right _ (Format.single.units_mono ordered)

theorem toDouble_of_finite {number : Single} (finite : number.isFinite = true) :
    Single.toDouble number = ⟨number.negative, wideCode number.code⟩ := by
  simp only [Floating.isFinite, decide_eq_true_eq] at finite
  have notNaN : number.isNaN = false := by
    simp only [Floating.isNaN, decide_eq_false_iff_not]
    omega
  have notInfinite : number.isInfinite = false := by
    simp only [Floating.isInfinite, decide_eq_false_iff_not]
    omega
  simp only [toDouble, notNaN, notInfinite, Bool.false_eq_true, if_false]
  rfl

theorem wideCode_lt_infinity {number : Single} (finite : number.isFinite = true) :
    wideCode number.code < Format.double.infinity := by
  simp only [Floating.isFinite, decide_eq_true_eq] at finite
  refine Nat.lt_of_le_of_lt (wideCode_mono (Nat.le_sub_one_of_lt finite)) ?_
  decide +kernel

/-- The text of a finite number comes out of the search among the decimals. -/
theorem text_of_finite {number : Single} (finite : number.isFinite = true) :
    Single.text number =
      (Double.textDecimal ⟨number.negative, wideCode number.code⟩ (List.range' 1 textDigits)).map
        ((if number.negative then "-" else "") ++ ·.positional) := by
  have bounded := wideCode_lt_infinity finite
  rw [Single.text, toDouble_of_finite finite, Double.text, if_neg, if_neg]
  · simp only [Floating.isInfinite, decide_eq_true_eq]
    omega
  · simp only [Floating.isNaN, decide_eq_true_eq]
    omega

/-! ### The bound -/

/-- The codes behind the last one that has a text are those of the magnitudes above the bound. -/
theorem magnitude_gt_iff (number : Single) :
    3.4025 * 10 ^ 38 < number.magnitude ↔ lastWritten < number.code := by
  have last : Format.single.units lastWritten ≤ writtenBound * Format.single.unitsPerOne := by
    decide +kernel
  have next : writtenBound * Format.single.unitsPerOne < Format.single.units (lastWritten + 1) := by
    decide +kernel
  have bound : (3.4025 * 10 ^ 38 : ℚ) = writtenBound := by norm_num [writtenBound]
  have positive : (0 : ℚ) < Format.single.unitsPerOne := by
    exact_mod_cast Format.single.unitsPerOne_pos
  rw [Floating.magnitude, bound, lt_div_iff₀ positive]
  norm_cast
  constructor
  · intro above
    by_contra within
    have := Format.single.units_mono (Nat.le_of_not_lt within)
    omega
  · intro behind
    exact Nat.lt_of_lt_of_le next (Format.single.units_mono behind)

/-! ### Numbers with a text -/

/-- A 64-bit number up to the bound fits in the 32-bit format. -/
theorem toSingle?_of_candidate {candidate : Double}
    (within : candidate.code ≤ Format.double.round writtenBound 1) :
    ∃ single, Double.toSingle? candidate = some single := by
  have finite : Format.double.round writtenBound 1 < Format.double.infinity := by decide +kernel
  have notNaN : candidate.isNaN = false := by
    simp only [Floating.isNaN, decide_eq_false_iff_not]
    omega
  have notInfinite : candidate.isInfinite = false := by
    simp only [Floating.isInfinite, decide_eq_false_iff_not]
    omega
  have small : Format.single.round (Format.double.units candidate.code) Format.double.unitsPerOne
      < Format.single.infinity := by
    have positive := Format.double.unitsPerOne_pos
    refine Nat.lt_of_le_of_lt (Format.round_mono _ positive positive
      (Nat.mul_le_mul_right _ (Format.double.units_mono within))) ?_
    decide +kernel
  refine ⟨Double.toSingle candidate, ?_⟩
  unfold Double.toSingle? Double.toSingle
  simp only [notNaN, notInfinite, Bool.false_eq_true, if_false]
  rw [if_neg]
  simp only [Floating.isInfinite, Bool.and_eq_true, decide_eq_true_eq]
  omega

/-- The decimals of up to nine digits that are nearest to a magnitude with a text do not exceed the
bound. -/
theorem nearest_le_writtenBound {count numerator denominator : Nat} (counted : count ∈ List.range' 1 9)
    (nonzero : 0 < numerator) (positive : 0 < denominator)
    (small : numerator ≤ lastMagnitude * denominator) :
    (Decimal.nearest count numerator denominator).numerator ≤
      writtenBound * (Decimal.nearest count numerator denominator).denominator := by
  have leading : leadingExponent numerator denominator ≤ 38 := by
    have length : digitCount (numerator / denominator) ≤ 39 := by
      refine digitCount_le_iff.mpr (Nat.lt_of_le_of_lt (Nat.div_le_of_le_mul ?_)
        (show lastMagnitude < 10 ^ 39 by decide))
      rwa [Nat.mul_comm]
    unfold leadingExponent
    split_ifs <;> omega
  by_cases highest : leadingExponent numerator denominator = 38
  · -- Only here can a candidate come close to the bound, so each length is looked at.
    have lengths : ∀ count ∈ List.range' 1 9, count ≤ 39 ∧
        Format.divideToEven lastMagnitude (10 ^ (39 - count)) * 10 ^ (39 - count) ≤ writtenBound := by
      decide +kernel
    obtain ⟨short, within⟩ := lengths count counted
    have exponent : Decimal.lastExponent count numerator denominator = (39 - count : Nat) := by
      unfold Decimal.lastExponent
      omega
    have digits : Format.divideToEven numerator (denominator * 10 ^ (39 - count)) ≤
        Format.divideToEven lastMagnitude (10 ^ (39 - count)) := by
      have power : 0 < 10 ^ (39 - count) := Nat.pow_pos (by decide)
      refine Format.divideToEven_mono (Nat.mul_pos positive power) power ?_
      rw [← Nat.mul_assoc]
      exact Nat.mul_le_mul_right _ small
    simp only [Decimal.nearest, Decimal.numerator, Decimal.denominator, Decimal.rescale, exponent,
      Int.toNat_natCast, Int.toNat_neg_natCast, Nat.pow_eq, Nat.pow_zero, Nat.mul_one]
    exact Nat.le_trans (Nat.mul_le_mul_right _ digits) within
  · have digits := Decimal.digits_nearest_le count nonzero positive
    have exponent : (Decimal.nearest count numerator denominator).exponent =
      leadingExponent numerator denominator + 1 - count := rfl
    unfold Decimal.numerator Decimal.denominator
    generalize Decimal.nearest count numerator denominator = decimal at digits exponent ⊢
    simp only [Nat.pow_eq]
    calc decimal.digits * 10 ^ decimal.exponent.toNat
        ≤ 10 ^ count * 10 ^ decimal.exponent.toNat := Nat.mul_le_mul_right _ digits
      _ = 10 ^ (count + decimal.exponent.toNat) := (Nat.pow_add 10 _ _).symm
      _ ≤ 10 ^ (38 + (-decimal.exponent).toNat) := Nat.pow_le_pow_right (by decide) (by omega)
      _ = 10 ^ 38 * 10 ^ (-decimal.exponent).toNat := Nat.pow_add 10 _ _
      _ ≤ writtenBound * 10 ^ (-decimal.exponent).toNat := Nat.mul_le_mul_right _ (by decide)

/-- Every candidate for the text of such a magnitude fits in the 32-bit format. -/
theorem candidate_fits {number : Double} {count : Nat} (counted : count ∈ List.range' 1 9)
    (small : Format.double.units number.code ≤ lastMagnitude * Format.double.unitsPerOne) :
    ∃ single, Double.toSingle? (Double.ofDecimal number.negative
      (Double.nearestDecimal number count)) = some single := by
  refine toSingle?_of_candidate ?_
  show Format.double.round _ _ ≤ Format.double.round writtenBound 1
  refine Format.round_mono _ (Nat.pow_pos (by decide)) Nat.one_pos ?_
  rw [Nat.mul_one]
  by_cases zero : number.code = 0
  · rw [Double.nearestDecimal, if_pos zero]
    exact Nat.zero_le _
  · rw [Double.nearestDecimal, if_neg zero]
    refine nearest_le_writtenBound counted ?_ Format.double.unitsPerOne_pos small
    calc 0 < Format.double.units 1 := by decide +kernel
      _ ≤ Format.double.units number.code := Format.double.units_mono (Nat.pos_of_ne_zero zero)

/-- So the search for the text succeeds. -/
theorem textDecimal_ok (number : Double)
    (small : Format.double.units number.code ≤ lastMagnitude * Format.double.unitsPerOne)
    {counts : List Nat} (within : counts ⊆ List.range' 1 9) :
    ∃ decimal, Double.textDecimal number counts = .ok decimal := by
  induction counts with
  | nil => exact ⟨_, rfl⟩
  | cons count counts previous =>
    obtain ⟨single, fits⟩ := candidate_fits (within List.mem_cons_self) small
    rw [Double.textDecimal_of_some fits]
    by_cases found : (Single.toDouble single).sameValue number = true
    · exact ⟨_, if_pos found⟩
    · rw [if_neg found]
      exact previous fun _ later => within (List.mem_cons_of_mem _ later)

/-- Numbers up to the bound have a text. -/
theorem text_ok_of_le {number : Single} (finite : number.isFinite = true)
    (early : number.code ≤ lastWritten) : ∃ text, Single.text number = .ok text := by
  have small : Format.double.units (wideCode number.code) ≤
      lastMagnitude * Format.double.unitsPerOne := by
    refine Nat.le_trans (Format.double.units_mono (wideCode_mono early)) ?_
    decide +kernel
  obtain ⟨decimal, found⟩ := textDecimal_ok ⟨number.negative, wideCode number.code⟩ small
    (List.Subset.refl (List.range' 1 textDigits))
  rw [text_of_finite finite, found]
  exact ⟨_, rfl⟩

/-! ### Numbers without a text -/

/-- The decimal of `count` digits that is nearest to the magnitudes above the bound, up to four digits:
`3`, `34`, `340` and `3403` with zeros behind them. -/
def largeDecimal (count : Nat) : Decimal :=
  ⟨Format.divideToEven nextMagnitude (10 ^ (39 - count)), (39 - count : Nat)⟩

/-- The magnitudes above the bound share the decimals of up to four digits. -/
theorem nearest_of_large {count numerator denominator : Nat} (short : count ∈ List.range' 1 4)
    (positive : 0 < denominator) (large : nextMagnitude * denominator ≤ numerator)
    (finite : numerator ≤ topMagnitude * denominator) :
    Decimal.nearest count numerator denominator = largeDecimal count := by
  -- Rounding to so few digits, the smallest and the largest of these magnitudes agree.
  have lengths : ∀ count ∈ List.range' 1 4, count ≤ 39 ∧
      Format.divideToEven topMagnitude (10 ^ (39 - count)) =
        Format.divideToEven nextMagnitude (10 ^ (39 - count)) := by
    decide +kernel
  obtain ⟨counted, agree⟩ := lengths count short
  have quotient : nextMagnitude ≤ numerator / denominator :=
    (Nat.le_div_iff_mul_le positive).mpr large
  have length : digitCount (numerator / denominator) = 39 := by
    have above : ¬ digitCount (numerator / denominator) ≤ 38 := by
      rw [digitCount_le_iff, Nat.not_lt]
      exact Nat.le_trans (by decide +kernel) quotient
    have below : digitCount (numerator / denominator) ≤ 39 := by
      refine digitCount_le_iff.mpr (Nat.lt_of_le_of_lt (Nat.div_le_of_le_mul ?_)
        (show topMagnitude < 10 ^ 39 by decide +kernel))
      rwa [Nat.mul_comm]
    omega
  have leading : leadingExponent numerator denominator = 38 := by
    have one : denominator ≤ numerator := by
      refine Nat.le_trans ?_ large
      exact Nat.le_mul_of_pos_left _ (by decide +kernel)
    rw [leadingExponent, if_pos one, length]
    rfl
  have exponent : Decimal.lastExponent count numerator denominator = (39 - count : Nat) := by
    unfold Decimal.lastExponent
    omega
  have power : 0 < 10 ^ (39 - count) := Nat.pow_pos (by decide)
  have digits : Format.divideToEven numerator (denominator * 10 ^ (39 - count)) =
      Format.divideToEven nextMagnitude (10 ^ (39 - count)) := by
    refine Nat.le_antisymm ?_ ?_
    · rw [← agree]
      refine Format.divideToEven_mono (Nat.mul_pos positive power) power ?_
      rw [← Nat.mul_assoc]
      exact Nat.mul_le_mul_right _ finite
    · refine Format.divideToEven_mono power (Nat.mul_pos positive power) ?_
      rw [← Nat.mul_assoc]
      exact Nat.mul_le_mul_right _ large
  simp only [Decimal.nearest, Decimal.rescale, exponent, Int.toNat_natCast, Int.toNat_neg_natCast,
    Nat.pow_eq, Nat.pow_zero, Nat.mul_one, digits, largeDecimal]

/-- A number above the bound, in the 64-bit format. -/
structure IsLarge (number : Double) : Prop where
  above : wideCode (lastWritten + 1) ≤ number.code
  finite : number.code ≤ wideCode (Format.single.infinity - 1)

theorem IsLarge.nearestDecimal {number : Double} (large : IsLarge number) {count : Nat}
    (short : count ∈ List.range' 1 4) :
    Double.nearestDecimal number count = largeDecimal count := by
  have bottom : nextMagnitude * Format.double.unitsPerOne =
      Format.double.units (wideCode (lastWritten + 1)) := by decide +kernel
  have top : Format.double.units (wideCode (Format.single.infinity - 1)) =
      topMagnitude * Format.double.unitsPerOne := by decide +kernel
  have nonzero : number.code ≠ 0 := by
    have : 0 < wideCode (lastWritten + 1) := by decide +kernel
    have := large.above
    omega
  rw [Double.nearestDecimal, if_neg nonzero]
  refine nearest_of_large short Format.double.unitsPerOne_pos ?_ ?_
  · rw [bottom]
    exact Format.double.units_mono large.above
  · rw [← top]
    exact Format.double.units_mono large.finite

/-- The candidates of up to three digits for such a number are all too small. -/
theorem IsLarge.textDecimal_cons {number : Double} (large : IsLarge number) {count : Nat}
    (short : count ∈ List.range' 1 3) (counts : List Nat) :
    Double.textDecimal number (count :: counts) = Double.textDecimal number counts := by
  have smaller : ∀ count ∈ List.range' 1 3, ∀ negative : Bool,
      count ∈ List.range' 1 4 ∧
        (Double.toSingle? (Double.ofDecimal negative (largeDecimal count))).any (fun single =>
          (Single.toDouble single).code < wideCode (lastWritten + 1)) = true := by
    decide +kernel
  obtain ⟨within, read⟩ := smaller count short number.negative
  rw [← large.nearestDecimal within, Option.any_eq_true] at read
  obtain ⟨single, fits, less⟩ := read
  rw [decide_eq_true_eq] at less
  rw [Double.textDecimal_of_some fits, if_neg]
  intro same
  simp only [Floating.sameValue, Bool.and_eq_true, beq_iff_eq] at same
  have above := large.above
  omega

/-- The candidate of four digits is too large for the 32-bit format. -/
theorem IsLarge.textDecimal_eq_error {number : Double} (large : IsLarge number) :
    Double.textDecimal number (List.range' 1 textDigits) =
      .error (Double.ofDecimal number.negative (largeDecimal 4)) := by
  have tooLarge : ∀ negative : Bool,
      Double.toSingle? (Double.ofDecimal negative (largeDecimal 4)) = none := by
    decide +kernel
  have fourth : Double.nearestDecimal number 4 = largeDecimal 4 := large.nearestDecimal (by decide)
  have fails := tooLarge number.negative
  rw [← fourth] at fails ⊢
  show Double.textDecimal number (1 :: 2 :: 3 :: 4 :: List.range' 5 5) = _
  rw [large.textDecimal_cons (by decide), large.textDecimal_cons (by decide),
    large.textDecimal_cons (by decide), Double.textDecimal_of_none fails]

/-- Numbers above the bound have no text, because `3.403e38` is no 32-bit number. -/
theorem text_error_of_gt {number : Single} (finite : number.isFinite = true)
    (late : lastWritten < number.code) :
    Single.text number = .error (Double.ofDecimal number.negative ⟨3403, 35⟩) := by
  have bounded : number.code < Format.single.infinity := by
    simpa only [Floating.isFinite, decide_eq_true_eq] using finite
  have large : IsLarge ⟨number.negative, wideCode number.code⟩ :=
    ⟨wideCode_mono late, wideCode_mono (Nat.le_sub_one_of_lt bounded)⟩
  have fourth : largeDecimal 4 = ⟨3403, 35⟩ := by decide +kernel
  rw [text_of_finite finite, large.textDecimal_eq_error, fourth]
  rfl

/-- **The finite numbers without a text are those above `3.4025e38`.** -/
theorem text_eq_error_iff {number : Single} (finite : number.isFinite = true) :
    (∃ candidate, Single.text number = .error candidate) ↔ 3.4025 * 10 ^ 38 < number.magnitude := by
  rw [magnitude_gt_iff]
  constructor
  · rintro ⟨candidate, failed⟩
    by_contra early
    obtain ⟨text, printed⟩ := text_ok_of_le finite (Nat.le_of_not_lt early)
    rw [printed] at failed
    exact nomatch failed
  · intro late
    exact ⟨_, text_error_of_gt finite late⟩

end Single

end Lisplet
