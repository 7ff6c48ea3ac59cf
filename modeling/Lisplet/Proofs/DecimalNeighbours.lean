import Lisplet.Proofs.TwoRoundings
import Mathlib.Tactic.FieldSimp

/-!
The decimals next to a number.

Among the decimals with at most so many digits, a positive number has a neighbour on either side, or is one
of them. The nearer one is the candidate for its text, the other one is not looked at. No decimal with that
many digits lies between them.

* `leadingExponent_spec`: the power of ten of the leading digit.
* `Decimal.nearest_opposite_cases`: the two neighbours of a number.
* `Decimal.nearest_beside_opposite`, `Decimal.nearest_error`: how far they are away.
* `Decimal.outside_neighbours`: other decimals are not nearer than the neighbour on their side.
-/

namespace Lisplet

variable {numerator denominator : Nat}

theorem le_digitCount {number count : Nat} (counted : digitCount number = count + 1) :
    10 ^ count ≤ number := by
  have more : ¬digitCount number ≤ count := by omega
  rwa [digitCount_le_iff, Nat.not_lt] at more

theorem exists_digitCount_eq {number : Nat} (positive : 0 < number) :
    ∃ count, digitCount number = count + 1 := by
  refine Nat.exists_eq_succ_of_ne_zero fun none => ?_
  have zero := digitCount_le_iff.mp none.le
  omega

/-- The leading digit of a quotient stands for its power of ten. -/
theorem leadingExponent_spec (nonzero : 0 < numerator) (positive : 0 < denominator) :
    (10 : ℚ) ^ leadingExponent numerator denominator ≤ (numerator : ℚ) / denominator ∧
      (numerator : ℚ) / denominator < 10 ^ (leadingExponent numerator denominator + 1) := by
  have cast : (0 : ℚ) < denominator := by exact_mod_cast positive
  unfold leadingExponent
  by_cases large : denominator ≤ numerator
  · rw [if_pos large, le_div_iff₀ cast, div_lt_iff₀ cast]
    obtain ⟨count, counted⟩ := exists_digitCount_eq (Nat.div_pos large positive)
    have least := le_digitCount counted
    have most := digitCount_le_iff.mp counted.le
    rw [Nat.le_div_iff_mul_le positive] at least
    rw [Nat.div_lt_iff_lt_mul positive] at most
    rw [counted]
    constructor
    · rw [show ((count + 1 : Nat) : Int) - 1 = (count : Int) by omega, zpow_natCast]
      exact_mod_cast least
    · rw [show ((count + 1 : Nat) : Int) - 1 + 1 = ((count + 1 : Nat) : Int) by omega, zpow_natCast]
      exact_mod_cast most
  · -- The leading digit is behind the point: so many times ten goes into the inverse.
    rw [if_neg large, le_div_iff₀ cast, div_lt_iff₀ cast]
    obtain ⟨count, counted⟩ :=
      exists_digitCount_eq (Nat.div_pos (show numerator ≤ denominator - 1 by omega) nonzero)
    have least := le_digitCount counted
    have most := digitCount_le_iff.mp counted.le
    rw [Nat.le_div_iff_mul_le nonzero] at least
    rw [Nat.div_lt_iff_lt_mul nonzero] at most
    rw [counted]
    constructor
    · rw [zpow_neg, zpow_natCast, inv_mul_le_iff₀ (by positivity)]
      exact_mod_cast (show denominator ≤ 10 ^ (count + 1) * numerator by omega)
    · rw [show -((count + 1 : Nat) : Int) + 1 = -(count : Int) by omega, zpow_neg, zpow_natCast,
        lt_inv_mul_iff₀ (by positivity)]
      exact_mod_cast (show 10 ^ count * numerator < denominator by omega)

namespace Decimal

/-! ### The two neighbours -/

theorem rescale_pos (exponent : Int) (positive : 0 < denominator) :
    0 < (rescale exponent numerator denominator).2 :=
  Nat.mul_pos positive (Nat.pow_pos (show 0 < 10 by decide))

theorem rescale_div (exponent : Int) (numerator denominator : Nat) :
    ((rescale exponent numerator denominator).1 : ℚ) / (rescale exponent numerator denominator).2 =
      (numerator : ℚ) / denominator / 10 ^ exponent := by
  rw [ten_zpow_eq, rescale]
  simp only [Nat.pow_eq]
  push_cast
  rw [div_div_div_eq]

theorem divideToEven_eq (numerator denominator : Nat) :
    Format.divideToEven numerator denominator = numerator / denominator ∨
      Format.divideToEven numerator denominator = numerator / denominator + 1 := by
  unfold Format.divideToEven
  dsimp only
  split_ifs <;> omega

section Neighbours

variable (count numerator : Nat) (positive : 0 < denominator)

/-- The step from one decimal with so many digits to the next. -/
def stepOf (count numerator denominator : Nat) : ℚ :=
  10 ^ lastExponent count numerator denominator

theorem stepOf_pos (count numerator denominator : Nat) : 0 < stepOf count numerator denominator :=
  zpow_pos (by norm_num) _

/-- A quotient in steps. -/
def scaledOf (count numerator denominator : Nat) : Nat × Nat :=
  rescale (lastExponent count numerator denominator) numerator denominator

/-- The number of whole steps in a quotient. -/
def wholeSteps (count numerator denominator : Nat) : Nat :=
  (scaledOf count numerator denominator).1 / (scaledOf count numerator denominator).2

/-- The number of steps that a quotient is rounded to. -/
def roundedSteps (count numerator denominator : Nat) : Nat :=
  Format.divideToEven (scaledOf count numerator denominator).1 (scaledOf count numerator denominator).2

theorem quotient_eq : (numerator : ℚ) / denominator = (scaledOf count numerator denominator).1 /
    (scaledOf count numerator denominator).2 * stepOf count numerator denominator := by
  rw [scaledOf, rescale_div, ← stepOf, div_mul_cancel₀ _ (stepOf_pos count numerator denominator).ne']

include positive

theorem scaledOf_pos : 0 < (scaledOf count numerator denominator).2 :=
  rescale_pos _ positive

/-- A quotient lies between its whole steps and one more. -/
theorem wholeSteps_bounds :
    wholeSteps count numerator denominator * stepOf count numerator denominator ≤
        (numerator : ℚ) / denominator ∧
      (numerator : ℚ) / denominator <
        (wholeSteps count numerator denominator + 1) * stepOf count numerator denominator := by
  have divisor := scaledOf_pos count numerator positive
  have cast : (0 : ℚ) < (scaledOf count numerator denominator).2 := by exact_mod_cast divisor
  have power := stepOf_pos count numerator denominator
  rw [quotient_eq count numerator]
  refine ⟨mul_le_mul_of_nonneg_right ?_ power.le, mul_lt_mul_of_pos_right ?_ power⟩
  · rw [le_div_iff₀ cast]
    exact_mod_cast Nat.div_mul_le_self _ _
  · rw [div_lt_iff₀ cast]
    exact_mod_cast (Nat.div_lt_iff_lt_mul divisor).mp (Nat.lt_succ_self _)

/-- How much farther away the decimal above a quotient is than the one below it. -/
theorem excess_eq :
    let number := (numerator : ℚ) / denominator
    let lower := wholeSteps count numerator denominator * stepOf count numerator denominator
    let upper := (wholeSteps count numerator denominator + 1) * stepOf count numerator denominator
    upper - number - (number - lower) = ((2 * wholeSteps count numerator denominator + 1) *
      (scaledOf count numerator denominator).2 - 2 * (scaledOf count numerator denominator).1) *
        (stepOf count numerator denominator / (scaledOf count numerator denominator).2) := by
  intro number lower upper
  have cast : (0 : ℚ) < (scaledOf count numerator denominator).2 := by
    exact_mod_cast scaledOf_pos count numerator positive
  simp only [upper, lower, number, quotient_eq count numerator]
  field_simp
  ring

/-- One of the nearest decimal and its opposite has the whole steps of a number, the other one has one step
more, and the opposite one is not nearer. -/
theorem nearest_opposite_cases :
    let near := (nearest count numerator denominator).value
    let far := (opposite count numerator denominator).value
    let lower := wholeSteps count numerator denominator * stepOf count numerator denominator
    let upper := (wholeSteps count numerator denominator + 1) * stepOf count numerator denominator
    let number := (numerator : ℚ) / denominator
    near = lower ∧ far = upper ∧ number - lower ≤ upper - number ∨
      near = upper ∧ far = lower ∧ upper - number ≤ number - lower := by
  intro near far lower upper number
  have divisor := scaledOf_pos count numerator positive
  have scale : 0 < stepOf count numerator denominator / (scaledOf count numerator denominator).2 :=
    div_pos (stepOf_pos count numerator denominator) (by exact_mod_cast divisor)
  have excess := excess_eq count numerator positive
  have nearEq : near = roundedSteps count numerator denominator * stepOf count numerator denominator := rfl
  obtain down | up : roundedSteps count numerator denominator = wholeSteps count numerator denominator ∨
      roundedSteps count numerator denominator = wholeSteps count numerator denominator + 1 :=
    divideToEven_eq _ _
  · have opposed : opposite count numerator denominator =
      ⟨wholeSteps count numerator denominator + 1, _⟩ := if_pos down
    have side : (2 : ℚ) * (scaledOf count numerator denominator).1 ≤
        (2 * wholeSteps count numerator denominator + 1) * (scaledOf count numerator denominator).2 := by
      exact_mod_cast ((Format.divideToEven_le_iff divisor).mp down.le).elim Nat.le_of_lt (·.1.le)
    have signed := mul_nonneg (sub_nonneg.mpr side) scale.le
    refine .inl ⟨nearEq.trans (by rw [down]), ?_, by linarith⟩
    simp only [far, opposed, value, upper, stepOf, Nat.cast_add, Nat.cast_one]
  · have above : ¬roundedSteps count numerator denominator ≤ wholeSteps count numerator denominator := by
      omega
    have opposed : opposite count numerator denominator = ⟨wholeSteps count numerator denominator, _⟩ :=
      if_neg fun down => above (Nat.le_of_eq down)
    have side : (2 * wholeSteps count numerator denominator + 1) * (scaledOf count numerator denominator).2 ≤
        (2 : ℚ) * (scaledOf count numerator denominator).1 := by
      rw [roundedSteps, Format.divideToEven_le_iff divisor, not_or, Nat.not_lt] at above
      exact_mod_cast above.1
    have signed := mul_nonneg (sub_nonneg.mpr side) scale.le
    refine .inr ⟨nearEq.trans ?_, ?_, by linarith⟩
    · rw [up, Nat.cast_add, Nat.cast_one]
    · simp only [far, opposed, value, lower, stepOf]

/-- The nearest decimal is not farther away than its opposite, and they are a step apart. -/
theorem nearest_beside_opposite :
    let near := |(nearest count numerator denominator).value - (numerator : ℚ) / denominator|
    let far := |(opposite count numerator denominator).value - (numerator : ℚ) / denominator|
    near ≤ far ∧ near + far = stepOf count numerator denominator := by
  intro near far
  obtain ⟨least, less⟩ := wholeSteps_bounds count numerator positive
  have below := (abs_sub_comm _ _).trans (abs_of_nonneg (sub_nonneg.mpr least))
  have above := abs_of_nonneg (sub_nonneg.mpr less.le)
  obtain ⟨nearEq, farEq, side⟩ | ⟨nearEq, farEq, side⟩ := nearest_opposite_cases count numerator positive
  · simp only [near, far, nearEq, farEq, below, above]
    exact ⟨side, by ring⟩
  · simp only [near, far, nearEq, farEq, below, above]
    exact ⟨side, by ring⟩

end Neighbours

/-! ### Leading digits -/

/-- The leading digit is so many steps above the last one. -/
theorem ten_zpow_leadingExponent (count numerator denominator : Nat) :
    (10 : ℚ) ^ leadingExponent numerator denominator =
      10 ^ count * stepOf (count + 1) numerator denominator := by
  rw [stepOf, lastExponent, ← zpow_natCast, ← zpow_add₀ (by norm_num)]
  congr 1
  push_cast
  ring

/-- How far the nearest decimal is away, compared with the number itself. -/
theorem nearest_error (count : Nat) (nonzero : 0 < numerator) (positive : 0 < denominator) :
    2 * 10 ^ count * |(nearest (count + 1) numerator denominator).value - (numerator : ℚ) / denominator| ≤
      (numerator : ℚ) / denominator := by
  obtain ⟨least, _⟩ := leadingExponent_spec nonzero positive
  rw [ten_zpow_leadingExponent count] at least
  obtain ⟨nearer, apart⟩ := nearest_beside_opposite (count + 1) numerator positive
  have power : (0 : ℚ) ≤ 10 ^ count := by positivity
  have scaled := mul_le_mul_of_nonneg_left nearer power
  rw [← apart] at least
  linarith

/-! ### Other decimals -/

/-- So many digits are needed for the whole steps of a number. -/
theorem pow_le_wholeSteps (count : Nat) (nonzero : 0 < numerator) (positive : 0 < denominator) :
    10 ^ count ≤ wholeSteps (count + 1) numerator denominator := by
  obtain ⟨least, _⟩ := leadingExponent_spec nonzero positive
  obtain ⟨_, less⟩ := wholeSteps_bounds (count + 1) numerator positive
  rw [ten_zpow_leadingExponent count] at least
  have bound := lt_of_mul_lt_mul_right (least.trans_lt less) (stepOf_pos _ _ _).le
  exact Nat.le_of_lt_succ (by exact_mod_cast bound)

/-- A decimal with at most so many digits does not lie between the two neighbours of a number. -/
theorem outside_neighbours {count : Nat} (nonzero : 0 < numerator) (positive : 0 < denominator)
    {decimal : Decimal} (short : decimal.digits < 10 ^ (count + 1)) :
    let step := stepOf (count + 1) numerator denominator
    let whole := wholeSteps (count + 1) numerator denominator
    decimal.value ≤ whole * step ∨ (whole + 1) * step ≤ decimal.value := by
  intro step whole
  have power : 0 < step := stepOf_pos _ _ _
  have many := pow_le_wholeSteps count nonzero positive
  by_cases coarse : lastExponent (count + 1) numerator denominator ≤ decimal.exponent
  · -- The decimal is a number of steps.
    obtain ⟨places, exponent⟩ := Int.le.dest coarse
    have steps : decimal.value = (decimal.digits * 10 ^ places : Nat) * step := by
      simp only [value, step, stepOf]
      rw [← exponent, zpow_add₀ (by norm_num), zpow_natCast]
      push_cast
      ring
    rw [steps]
    rcases le_or_gt (decimal.digits * 10 ^ places) whole with atMost | more
    · exact .inl (mul_le_mul_of_nonneg_right (by exact_mod_cast atMost) power.le)
    · exact .inr (mul_le_mul_of_nonneg_right (by exact_mod_cast more) power.le)
  · -- With so few digits and a smaller exponent, it is below the leading digit of the number.
    left
    have digits : (decimal.digits : ℚ) ≤ 10 ^ (count + 1) := by exact_mod_cast short.le
    have exponent : (10 : ℚ) ^ decimal.exponent ≤ 10 ^ (lastExponent (count + 1) numerator denominator - 1) :=
      zpow_le_zpow_right₀ (by norm_num) (by omega)
    calc decimal.value
        ≤ 10 ^ (count + 1) * 10 ^ (lastExponent (count + 1) numerator denominator - 1) :=
          mul_le_mul digits exponent (zpow_nonneg (by norm_num) _) (by positivity)
      _ = 10 ^ count * step := by
          simp only [step, stepOf]
          rw [zpow_sub_one₀ (by norm_num), pow_succ]
          ring
      _ ≤ whole * step := mul_le_mul_of_nonneg_right (by exact_mod_cast many) power.le

end Decimal

end Lisplet
