import Lisplet.Numeric.FloatText
import Mathlib.Data.Nat.Log
import Mathlib.Tactic.Ring

/-!
Rounding keeps the order of numbers.

Quotients of natural numbers are compared by multiplying crosswise, so nothing is divided that does not
come out even. A larger quotient is never rounded to a smaller integer or a smaller code, a larger code
never stands for a smaller magnitude, and the decimal nearest to a quotient has no more digits than were
asked for.

* `Format.divideToEven_le_iff`: the quotients that are rounded to at most a given integer.
* `Format.divideToEven_mono`, `Format.round_mono`: larger quotients are rounded to larger numbers.
* `Format.units_mono`: larger codes stand for larger magnitudes.
* `Format.significand`: a quotient of units, shifted and rounded to an integer.
* `digitCount_le_iff`: the numbers of at most so many digits.
* `Decimal.digits_nearest_le`: the digits of the nearest decimal.
-/

namespace Lisplet

namespace Format

variable {numerator denominator larger other : Nat}

/-! ### Integers -/

/-- A quotient is rounded to at most `bound` if it lies below the middle between `bound` and the next
integer, or just there, and `bound` is even. -/
theorem divideToEven_le_iff (positive : 0 < denominator) {bound : Nat} :
    divideToEven numerator denominator ≤ bound ↔
      2 * numerator < (2 * bound + 1) * denominator ∨
        2 * numerator = (2 * bound + 1) * denominator ∧ bound % 2 = 0 := by
  unfold divideToEven
  dsimp only
  have below := Nat.mod_lt numerator positive
  have whole := Nat.div_add_mod numerator denominator
  generalize numerator / denominator = quotient at whole ⊢
  generalize numerator % denominator = rest at below whole ⊢
  have middle : 2 * numerator + denominator = (2 * quotient + 1) * denominator + 2 * rest := by
    rw [← whole]
    ring
  -- The middles of different integers are at least two denominators apart, of which each is two halves.
  rcases Nat.lt_trichotomy quotient bound with less | rfl | more
  · have apart : (2 * quotient + 3) * denominator ≤ (2 * bound + 1) * denominator :=
      Nat.mul_le_mul_right _ (by omega)
    rw [show (2 * quotient + 3) * denominator = (2 * quotient + 1) * denominator + 2 * denominator
      by ring] at apart
    split_ifs <;> omega
  · split_ifs <;> omega
  · have apart : (2 * bound + 3) * denominator ≤ (2 * quotient + 1) * denominator :=
      Nat.mul_le_mul_right _ (by omega)
    rw [show (2 * bound + 3) * denominator = (2 * bound + 1) * denominator + 2 * denominator
      by ring] at apart
    split_ifs <;> omega

/-- A larger quotient is not rounded to a smaller integer. -/
theorem divideToEven_mono (positive : 0 < denominator) (positiveOther : 0 < other)
    (ordered : numerator * other ≤ larger * denominator) :
    divideToEven numerator denominator ≤ divideToEven larger other := by
  have doubled : 2 * numerator * other ≤ 2 * larger * denominator := by
    rw [Nat.mul_assoc, Nat.mul_assoc]
    exact Nat.mul_le_mul_left _ ordered
  refine (divideToEven_le_iff positive).mpr ?_
  obtain below | ⟨middle, even⟩ := (divideToEven_le_iff positiveOther).mp (Nat.le_refl
    (divideToEven larger other))
  · refine .inl (Nat.lt_of_mul_lt_mul_right (a := other) ?_)
    calc 2 * numerator * other ≤ 2 * larger * denominator := doubled
      _ < (2 * divideToEven larger other + 1) * other * denominator :=
          Nat.mul_lt_mul_of_pos_right below positive
      _ = (2 * divideToEven larger other + 1) * denominator * other := by ring
  · have atMost : 2 * numerator ≤ (2 * divideToEven larger other + 1) * denominator := by
      refine Nat.le_of_mul_le_mul_right ?_ positiveOther
      calc 2 * numerator * other ≤ 2 * larger * denominator := doubled
        _ = (2 * divideToEven larger other + 1) * denominator * other := by
            rw [middle]
            ring
    exact (Nat.lt_or_eq_of_le atMost).imp_right fun same => ⟨same, even⟩

/-- A quotient that is at most an integer is rounded to at most that integer. -/
theorem divideToEven_le (positive : 0 < denominator) {bound : Nat}
    (atMost : numerator ≤ bound * denominator) : divideToEven numerator denominator ≤ bound := by
  refine (divideToEven_le_iff positive).mpr (.inl ?_)
  calc 2 * numerator ≤ 2 * (bound * denominator) := Nat.mul_le_mul_left _ atMost
    _ < 2 * (bound * denominator) + denominator := Nat.lt_add_of_pos_right positive
    _ = (2 * bound + 1) * denominator := by ring

/-- A quotient that is at least an integer is rounded to at least that integer. -/
theorem le_divideToEven (positive : 0 < denominator) {bound : Nat}
    (atLeast : bound * denominator ≤ numerator) : bound ≤ divideToEven numerator denominator := by
  have quotient : bound ≤ numerator / denominator := (Nat.le_div_iff_mul_le positive).mpr atLeast
  unfold divideToEven
  dsimp only
  split_ifs <;> omega

/-! ### Codes -/

variable (format : Format)

theorem fractions_eq : format.fractions = 2 ^ format.fractionBits := rfl

theorem fractions_pos : 0 < format.fractions :=
  Nat.two_pow_pos format.fractionBits

theorem unitsPerOne_pos : 0 < format.unitsPerOne :=
  Nat.two_pow_pos format.unitBits

theorem units_of_lt {code : Nat} (small : code < format.fractions) : format.units code = code := by
  rw [units, if_pos small]

/-- The magnitude of a code that is given by its power of two and its fraction. -/
theorem units_normal (power : Nat) {fraction : Nat} (proper : fraction < format.fractions) :
    format.units (format.fractions * (power + 1) + fraction) =
      (format.fractions + fraction) * 2 ^ power := by
  have positive := format.fractions_pos
  have large : ¬ format.fractions * (power + 1) + fraction < format.fractions := by
    have atLeast : format.fractions ≤ format.fractions * (power + 1) :=
      Nat.le_mul_of_pos_right format.fractions (Nat.succ_pos power)
    omega
  rw [units, if_neg large, Nat.mul_add_mod, Nat.mod_eq_of_lt proper, Nat.mul_add_div positive,
    Nat.div_eq_of_lt proper]
  rfl

theorem units_le_succ (code : Nat) : format.units code ≤ format.units (code + 1) := by
  have positive := format.fractions_pos
  by_cases small : code < format.fractions
  · rw [units_of_lt format small]
    by_cases next : code + 1 < format.fractions
    · rw [units_of_lt format next]
      exact Nat.le_succ code
    · have first : code + 1 = format.fractions * (0 + 1) + 0 := by omega
      rw [first, units_normal format 0 positive]
      omega
  · -- Every further code is one fraction more, or the first one behind the next power of two.
    obtain ⟨power, split⟩ : ∃ power, code / format.fractions = power + 1 :=
      Nat.exists_eq_succ_of_ne_zero (Nat.div_pos (Nat.le_of_not_lt small) positive).ne'
    have whole := Nat.div_add_mod code format.fractions
    have proper := Nat.mod_lt code positive
    rw [split] at whole
    generalize code % format.fractions = fraction at whole proper
    subst whole
    rw [units_normal format power proper]
    by_cases next : fraction + 1 < format.fractions
    · rw [Nat.add_assoc, units_normal format power next]
      exact Nat.mul_le_mul_right _ (by omega)
    · have carry : format.fractions * (power + 1) + fraction + 1 =
          format.fractions * (power + 1 + 1) + 0 := by
        have : format.fractions * (power + 1 + 1) =
          format.fractions * (power + 1) + format.fractions := Nat.mul_succ _ _
        omega
      rw [carry, units_normal format (power + 1) positive, Nat.pow_succ]
      calc (format.fractions + fraction) * 2 ^ power
          ≤ (format.fractions * 2) * 2 ^ power := Nat.mul_le_mul_right _ (by omega)
        _ = (format.fractions + 0) * (2 ^ power * 2) := by ring

/-- A larger code does not stand for a smaller magnitude. -/
theorem units_mono {first second : Nat} (ordered : first ≤ second) :
    format.units first ≤ format.units second :=
  monotone_nat_of_le_succ format.units_le_succ ordered

/-! ### Rounding to codes -/

/-- How far a quotient of units is shifted, so that one bit more than the fraction is left of it. -/
def shiftOf (units : Nat) : Nat :=
  Nat.log2 units - format.fractionBits

theorem lt_two_pow_shiftOf (units : Nat) :
    units < 2 * format.fractions * 2 ^ format.shiftOf units := by
  have exceeds : units < 2 ^ (Nat.log2 units + 1) := Nat.lt_log2_self
  calc units < 2 ^ (Nat.log2 units + 1) := exceeds
    _ ≤ 2 ^ (format.fractionBits + 1 + format.shiftOf units) :=
        Nat.pow_le_pow_right (by decide) (by unfold shiftOf; omega)
    _ = 2 * format.fractions * 2 ^ format.shiftOf units := by
        rw [fractions_eq]
        ring

theorem two_pow_shiftOf_le {units : Nat} (shifted : 0 < format.shiftOf units) :
    format.fractions * 2 ^ format.shiftOf units ≤ units := by
  unfold shiftOf at shifted ⊢
  have nonzero : units ≠ 0 := by
    rintro rfl
    rw [Nat.log2_zero] at shifted
    omega
  calc format.fractions * 2 ^ (Nat.log2 units - format.fractionBits)
      = 2 ^ (format.fractionBits + (Nat.log2 units - format.fractionBits)) := by
        rw [fractions_eq, Nat.pow_add]
    _ = 2 ^ Nat.log2 units := by
        congr 1
        omega
    _ ≤ units := Nat.log2_self_le nonzero

theorem shiftOf_mono {first second : Nat} (ordered : first ≤ second) :
    format.shiftOf first ≤ format.shiftOf second := by
  unfold shiftOf
  rw [Nat.log2_eq_log_two, Nat.log2_eq_log_two]
  exact Nat.sub_le_sub_right (Nat.log_mono_right ordered) _

/-- What is left of a quotient of units that is shifted, rounded to an integer. -/
def significand (units denominator : Nat) : Nat :=
  divideToEven units (denominator * 2 ^ format.shiftOf (units / denominator))

theorem significand_le (units : Nat) (positive : 0 < denominator) :
    format.significand units denominator ≤ 2 * format.fractions := by
  have below := format.lt_two_pow_shiftOf (units / denominator)
  unfold significand
  generalize format.shiftOf (units / denominator) = shift at below ⊢
  refine divideToEven_le (Nat.mul_pos positive (Nat.two_pow_pos shift)) ?_
  calc units ≤ 2 * format.fractions * 2 ^ shift * denominator :=
        Nat.le_of_lt ((Nat.div_lt_iff_lt_mul positive).mp below)
    _ = 2 * format.fractions * (denominator * 2 ^ shift) := by ring

theorem le_significand {units : Nat} (positive : 0 < denominator)
    (shifted : 0 < format.shiftOf (units / denominator)) :
    format.fractions ≤ format.significand units denominator := by
  have above := format.two_pow_shiftOf_le shifted
  unfold significand
  generalize format.shiftOf (units / denominator) = shift at above ⊢
  refine le_divideToEven (Nat.mul_pos positive (Nat.two_pow_pos shift)) ?_
  calc format.fractions * (denominator * 2 ^ shift)
      = format.fractions * 2 ^ shift * denominator := by ring
    _ ≤ units := (Nat.le_div_iff_mul_le positive).mp above

theorem round_eq (numerator denominator : Nat) :
    format.round numerator denominator = min format.infinity
      (format.shiftOf (numerator * format.unitsPerOne / denominator) * format.fractions +
        format.significand (numerator * format.unitsPerOne) denominator) :=
  rfl

theorem quotient_mono (positive : 0 < denominator) (positiveOther : 0 < other)
    (ordered : numerator * other ≤ larger * denominator) :
    numerator / denominator ≤ larger / other := by
  rw [Nat.le_div_iff_mul_le positiveOther]
  refine Nat.le_of_mul_le_mul_right ?_ positive
  calc numerator / denominator * other * denominator
      = numerator / denominator * denominator * other := by ring
    _ ≤ numerator * other := Nat.mul_le_mul_right _ (Nat.div_mul_le_self _ _)
    _ ≤ larger * denominator := ordered

/-- A larger quotient is not rounded to a smaller code. -/
theorem round_mono (positive : 0 < denominator) (positiveOther : 0 < other)
    (ordered : numerator * other ≤ larger * denominator) :
    format.round numerator denominator ≤ format.round larger other := by
  rw [round_eq, round_eq]
  refine min_le_min_left _ ?_
  have scaled : numerator * format.unitsPerOne * other ≤
      larger * format.unitsPerOne * denominator := by
    rw [Nat.mul_right_comm, Nat.mul_right_comm larger]
    exact Nat.mul_le_mul_right _ ordered
  generalize numerator * format.unitsPerOne = first at scaled ⊢
  generalize larger * format.unitsPerOne = second at scaled ⊢
  have shifts := format.shiftOf_mono (quotient_mono positive positiveOther scaled)
  by_cases same : format.shiftOf (first / denominator) = format.shiftOf (second / other)
  · unfold significand
    rw [← same]
    generalize format.shiftOf (first / denominator) = shift
    have power := Nat.two_pow_pos shift
    refine Nat.add_le_add_left (divideToEven_mono (Nat.mul_pos positive power)
      (Nat.mul_pos positiveOther power) ?_) _
    rw [← Nat.mul_assoc, ← Nat.mul_assoc]
    exact Nat.mul_le_mul_right _ scaled
  · -- A larger shift begins where a smaller one ends, at twice as many fractions.
    have upper := format.significand_le first positive
    have lower : format.fractions ≤ format.significand second other :=
      format.le_significand positiveOther (by omega)
    have steps : (format.shiftOf (first / denominator) + 1) * format.fractions ≤
        format.shiftOf (second / other) * format.fractions :=
      Nat.mul_le_mul_right _ (by omega)
    rw [Nat.succ_mul] at steps
    omega

end Format

/-! ### Digits -/

/-- The numbers of at most so many digits. -/
theorem digitCount_le_iff {number count : Nat} : digitCount number ≤ count ↔ number < 10 ^ count := by
  induction count generalizing number with
  | zero =>
    unfold digitCount
    split_ifs <;> simp_all
  | succ count previous =>
    unfold digitCount
    by_cases zero : number = 0
    · simp [zero]
    · rw [if_neg zero, Nat.succ_le_succ_iff, previous, Nat.div_lt_iff_lt_mul (by decide), Nat.pow_succ]

namespace Decimal

/-- A quotient of at most `10 ^ (up - down)` is, as a fraction of a power of ten that is `count` places
lower, at most `10 ^ count`. -/
theorem rescale_le {numerator denominator count : Nat} {exponent : Int} (up down : Nat)
    (places : exponent + count = up - down)
    (below : numerator * 10 ^ down ≤ 10 ^ up * denominator) :
    (rescale exponent numerator denominator).1 ≤
      10 ^ count * (rescale exponent numerator denominator).2 := by
  unfold rescale
  simp only [Nat.pow_eq]
  have balance : (-exponent).toNat + up = count + down + exponent.toNat := by omega
  refine Nat.le_of_mul_le_mul_right ?_ (Nat.pow_pos (n := up) (show 0 < 10 by decide))
  calc numerator * 10 ^ (-exponent).toNat * 10 ^ up
      = numerator * 10 ^ ((-exponent).toNat + up) := by rw [Nat.pow_add, Nat.mul_assoc]
    _ = numerator * 10 ^ down * (10 ^ count * 10 ^ exponent.toNat) := by
        rw [balance]
        ring
    _ ≤ 10 ^ up * denominator * (10 ^ count * 10 ^ exponent.toNat) :=
        Nat.mul_le_mul_right _ below
    _ = 10 ^ count * (denominator * 10 ^ exponent.toNat) * 10 ^ up := by ring

/-- The nearest decimal has no more digits than were asked for, unless it is a power of ten. -/
theorem digits_nearest_le (count : Nat) {numerator denominator : Nat} (nonzero : 0 < numerator)
    (positive : 0 < denominator) : (nearest count numerator denominator).digits ≤ 10 ^ count := by
  have divisor : 0 < (rescale (lastExponent count numerator denominator) numerator denominator).2 :=
    Nat.mul_pos positive (Nat.pow_pos (show 0 < 10 by decide))
  refine Format.divideToEven_le divisor ?_
  by_cases large : denominator ≤ numerator
  · refine rescale_le (digitCount (numerator / denominator)) 0 ?_ ?_
    · unfold lastExponent leadingExponent
      rw [if_pos large]
      omega
    · rw [Nat.pow_zero, Nat.mul_one]
      exact Nat.le_of_lt ((Nat.div_lt_iff_lt_mul positive).mp (digitCount_le_iff.mp (Nat.le_refl _)))
  · -- The leading digit is behind the point: so many times ten goes into the inverse.
    have some : 0 < (denominator - 1) / numerator := Nat.div_pos (by omega) nonzero
    obtain ⟨length, counted⟩ : ∃ length, digitCount ((denominator - 1) / numerator) = length + 1 := by
      refine Nat.exists_eq_succ_of_ne_zero fun none => ?_
      have zero := digitCount_le_iff.mp (Nat.le_of_eq none)
      omega
    have inverse : ¬ digitCount ((denominator - 1) / numerator) ≤ length := by omega
    rw [digitCount_le_iff, Nat.not_lt, Nat.le_div_iff_mul_le nonzero] at inverse
    refine rescale_le 0 length ?_ ?_
    · unfold lastExponent leadingExponent
      rw [if_neg large, counted]
      omega
    · rw [Nat.pow_zero, Nat.one_mul, Nat.mul_comm]
      omega

end Decimal

end Lisplet
