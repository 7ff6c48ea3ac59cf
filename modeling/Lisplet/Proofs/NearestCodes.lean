import Lisplet.Proofs.Rounding
import Lisplet.Proofs.Literals
import Mathlib.Algebra.Order.Field.Rat
import Mathlib.Tactic.Linarith

/-!
Rounding finds the nearest code.

The magnitudes of a format are compared as rational numbers. Infinity counts as the power of two behind
the largest finite magnitude, so that one rule says what is rounded to it: the nearest code, and of two
that are equally near the even one. Everything here follows from where the rounding of a magnitude passes
from one code to the next, which is at the middle between the two.

* `Format.value`, `Format.middle`: the magnitude of a code, and the middle between it and the next one.
* `Format.NearestEven`: the code that a magnitude is to be rounded to.
* `Format.nearest`: the code that it is rounded to.
* `Format.value_shifted`, `Format.exists_value_eq`: the magnitudes that have a code.
* `Format.nearest_le_iff`: the magnitudes that are rounded to at most a given code.
* `Format.nearest_value`: a magnitude that has a code is rounded to that code.
* `Format.nearestEven_iff`: rounding finds the one nearest code.
-/

namespace Lisplet

namespace Format

variable (format : Format)

/-- The magnitude of a code. That of infinity is the power of two behind the largest finite one. -/
def value (code : Nat) : ℚ :=
  (format.units code : ℚ) / format.unitsPerOne

/-- The middle between the magnitude of a code and that of the next one. -/
def middle (code : Nat) : ℚ :=
  (format.value code + format.value (code + 1)) / 2

/-- The code is the one nearest to a magnitude, and the even one if there are two. -/
def NearestEven (magnitude : ℚ) (code : Nat) : Prop :=
  code ≤ format.infinity ∧ ∀ other ≤ format.infinity, other ≠ code →
    |magnitude - format.value code| < |magnitude - format.value other| ∨
      |magnitude - format.value code| = |magnitude - format.value other| ∧ code % 2 = 0

/-- The code that a magnitude is rounded to. -/
def nearest (magnitude : ℚ) : Nat :=
  format.round magnitude.num.toNat magnitude.den

/-! ### The magnitudes of codes -/

/-- From one power of two to the next, and up to the first of them, magnitudes are multiples of the same
number of units. -/
theorem units_shifted {shift multiple : Nat} (normal : shift = 0 ∨ format.fractions ≤ multiple)
    (below : multiple ≤ 2 * format.fractions) :
    format.units (shift * format.fractions + multiple) = multiple * 2 ^ shift := by
  have positive := format.fractions_pos
  by_cases small : multiple < format.fractions
  · have unshifted : shift = 0 := normal.resolve_right (Nat.not_le.mpr small)
    subst unshifted
    rw [Nat.zero_mul, Nat.zero_add, units_of_lt format small, Nat.pow_zero, Nat.mul_one]
  · by_cases next : multiple < 2 * format.fractions
    · have code : shift * format.fractions + multiple =
          format.fractions * (shift + 1) + (multiple - format.fractions) := by
        rw [Nat.mul_succ, Nat.mul_comm]
        omega
      rw [code, units_normal format shift (by omega), Nat.add_sub_cancel' (Nat.le_of_not_lt small)]
    · -- The last multiple is the next power of two.
      have last : multiple = 2 * format.fractions := by omega
      have code : shift * format.fractions + multiple = format.fractions * (shift + 1 + 1) + 0 := by
        rw [last]
        ring
      rw [code, units_normal format (shift + 1) positive, last, Nat.pow_succ]
      ring

/-- Every code is among these. -/
theorem exists_shifted (code : Nat) : ∃ shift multiple, (shift = 0 ∨ format.fractions ≤ multiple) ∧
    multiple < 2 * format.fractions ∧ code = shift * format.fractions + multiple := by
  have positive := format.fractions_pos
  by_cases small : code < format.fractions
  · exact ⟨0, code, .inl rfl, by omega, by omega⟩
  · have proper := Nat.mod_lt code positive
    have whole := Nat.div_add_mod code format.fractions
    obtain ⟨shift, split⟩ : ∃ shift, code / format.fractions = shift + 1 :=
      Nat.exists_eq_succ_of_ne_zero (Nat.div_pos (Nat.le_of_not_lt small) positive).ne'
    refine ⟨shift, format.fractions + code % format.fractions, .inr (Nat.le_add_right _ _), by omega, ?_⟩
    rw [split, Nat.mul_succ, Nat.mul_comm] at whole
    omega

theorem units_lt_succ (code : Nat) : format.units code < format.units (code + 1) := by
  obtain ⟨shift, multiple, normal, below, rfl⟩ := format.exists_shifted code
  have next : shift = 0 ∨ format.fractions ≤ multiple + 1 := normal.imp_right Nat.le_succ_of_le
  rw [Nat.add_assoc, format.units_shifted normal (Nat.le_of_lt below), format.units_shifted next below]
  exact Nat.mul_lt_mul_of_pos_right (Nat.lt_succ_self _) (Nat.two_pow_pos shift)

theorem units_strictMono : StrictMono format.units :=
  strictMono_nat_of_lt_succ format.units_lt_succ

theorem unitsPerOne_cast_pos : (0 : ℚ) < format.unitsPerOne := by
  exact_mod_cast format.unitsPerOne_pos

/-- The step from one magnitude to the next, from a power of two to the next one. -/
def step (shift : Nat) : ℚ :=
  2 ^ shift / format.unitsPerOne

theorem step_pos (shift : Nat) : 0 < format.step shift :=
  div_pos (by positivity) format.unitsPerOne_cast_pos

theorem step_add (shift more : Nat) : format.step (shift + more) = 2 ^ more * format.step shift := by
  rw [step, step, pow_add, mul_comm, mul_div_assoc]

theorem value_shifted {shift multiple : Nat} (normal : shift = 0 ∨ format.fractions ≤ multiple)
    (below : multiple ≤ 2 * format.fractions) :
    format.value (shift * format.fractions + multiple) = multiple * format.step shift := by
  rw [value, format.units_shifted normal below, step, Nat.cast_mul, Nat.cast_pow, Nat.cast_ofNat,
    mul_div_assoc]

theorem middle_shifted {shift multiple : Nat} (normal : shift = 0 ∨ format.fractions ≤ multiple)
    (below : multiple < 2 * format.fractions) :
    format.middle (shift * format.fractions + multiple) = (multiple + 1 / 2) * format.step shift := by
  rw [middle, Nat.add_assoc, format.value_shifted normal below.le,
    format.value_shifted (normal.imp_right Nat.le_succ_of_le) below]
  push_cast
  ring

/-- A number of steps is a magnitude of the format if it needs no more bits than a fraction and one more. -/
theorem exists_value_eq {multiple : Nat} (short : multiple ≤ 2 * format.fractions) (shift : Nat) :
    ∃ code, format.value code = multiple * format.step shift := by
  induction shift generalizing multiple with
  | zero => exact ⟨_, format.value_shifted (.inl rfl) short⟩
  | succ shift previous =>
    by_cases normal : format.fractions ≤ multiple
    · exact ⟨_, format.value_shifted (.inr normal) short⟩
    · obtain ⟨code, same⟩ := previous (show 2 * multiple ≤ 2 * format.fractions by omega)
      refine ⟨code, same.trans ?_⟩
      rw [step_add]
      push_cast
      ring

theorem value_strictMono : StrictMono format.value := by
  intro first second less
  refine div_lt_div_of_pos_right ?_ format.unitsPerOne_cast_pos
  exact_mod_cast format.units_strictMono less

theorem value_zero : format.value 0 = 0 := by
  rw [value, units_of_lt _ format.fractions_pos, Nat.cast_zero, zero_div]

theorem value_nonneg (code : Nat) : 0 ≤ format.value code :=
  div_nonneg (Nat.cast_nonneg _) (Nat.cast_nonneg _)

theorem value_lt_middle (code : Nat) : format.value code < format.middle code := by
  have next := format.value_strictMono (Nat.lt_succ_self code)
  unfold middle
  linarith

theorem middle_lt_value (code : Nat) : format.middle code < format.value (code + 1) := by
  have next := format.value_strictMono (Nat.lt_succ_self code)
  unfold middle
  linarith

/-! ### Where rounding passes to the next code -/

section Boundaries

variable {format} (wide : 0 < format.fractionBits)

include wide

theorem fractions_even : format.fractions % 2 = 0 := by
  obtain ⟨bits, more⟩ := Nat.exists_eq_succ_of_ne_zero wide.ne'
  rw [fractions_eq, more, Nat.pow_succ]
  omega

theorem shifted_mod_two (shift multiple : Nat) :
    (shift * format.fractions + multiple) % 2 = multiple % 2 := by
  rw [Nat.add_mod, Nat.mul_mod, fractions_even wide, Nat.mul_zero, Nat.zero_mod, Nat.zero_add, Nat.mod_mod]

/-- A quotient is rounded to at most a code if it lies below the middle between that code and the next
one, or just there, and the code is even. -/
theorem round_le_iff {numerator denominator bound : Nat} (positive : 0 < denominator)
    (finite : bound < format.infinity) :
    format.round numerator denominator ≤ bound ↔
      2 * (numerator * format.unitsPerOne) <
          (format.units bound + format.units (bound + 1)) * denominator ∨
        2 * (numerator * format.unitsPerOne) =
          (format.units bound + format.units (bound + 1)) * denominator ∧ bound % 2 = 0 := by
  rw [round_eq, min_le_iff, or_iff_right (Nat.not_le.mpr finite)]
  generalize numerator * format.unitsPerOne = scaled
  have upper := format.significand_le scaled positive
  have lower : 0 < format.shiftOf (scaled / denominator) → _ := format.le_significand positive
  have above : 0 < format.shiftOf (scaled / denominator) → _ := format.two_pow_shiftOf_le
  have below := format.lt_two_pow_shiftOf (scaled / denominator)
  unfold significand at upper lower ⊢
  generalize format.shiftOf (scaled / denominator) = shift at upper lower above below ⊢
  have power : 0 < denominator * 2 ^ shift := Nat.mul_pos positive (Nat.two_pow_pos shift)
  rw [Nat.div_lt_iff_lt_mul positive] at below
  by_cases early : bound < shift * format.fractions + format.fractions ∧ 0 < shift
  · -- All these codes are behind the bound: the quotient is at least as large as the first of them.
    have first := lower early.2
    have start := (Nat.le_div_iff_mul_le positive).mp (above early.2)
    have units : format.units (shift * format.fractions + format.fractions) = _ :=
      format.units_shifted (.inr (Nat.le_refl _)) (by omega)
    have last : format.units (bound + 1) ≤ format.fractions * 2 ^ shift := by
      rw [← units]
      exact format.units_strictMono.monotone (by omega)
    have less := format.units_lt_succ bound
    have small : (format.units bound + format.units (bound + 1)) * denominator < 2 * scaled := by
      calc (format.units bound + format.units (bound + 1)) * denominator
          < 2 * (format.fractions * 2 ^ shift) * denominator :=
            Nat.mul_lt_mul_of_pos_right (by omega) positive
        _ = 2 * (format.fractions * 2 ^ shift * denominator) := Nat.mul_assoc _ _ _
        _ ≤ 2 * scaled := Nat.mul_le_mul_left 2 start
    omega
  · by_cases late : shift * format.fractions + 2 * format.fractions ≤ bound
    · -- All these codes are in front of the bound, and so is the quotient.
      have units : format.units (shift * format.fractions + 2 * format.fractions) = _ :=
        format.units_shifted (.inr (by omega)) (Nat.le_refl _)
      have first : 2 * format.fractions * 2 ^ shift ≤ format.units bound := by
        rw [← units]
        exact format.units_strictMono.monotone late
      have less := format.units_lt_succ bound
      have large : 2 * scaled < (format.units bound + format.units (bound + 1)) * denominator := by
        calc 2 * scaled < 2 * (2 * format.fractions * 2 ^ shift * denominator) := by omega
          _ = 2 * (2 * format.fractions * 2 ^ shift) * denominator := (Nat.mul_assoc _ _ _).symm
          _ ≤ (format.units bound + format.units (bound + 1)) * denominator :=
            Nat.mul_le_mul_right _ (by omega)
      omega
    · -- The bound is among them, and its multiple is compared with the rounded one.
      obtain ⟨multiple, rfl⟩ : ∃ multiple, bound = shift * format.fractions + multiple := by
        refine Nat.exists_eq_add_of_le ?_
        rcases Nat.eq_zero_or_pos shift with rfl | shifted
        · omega
        · omega
      have normal : shift = 0 ∨ format.fractions ≤ multiple := by omega
      have here := format.units_shifted normal (by omega)
      have next : format.units (shift * format.fractions + (multiple + 1)) = _ :=
        format.units_shifted (normal.imp_right Nat.le_succ_of_le) (by omega)
      have sum : (multiple * 2 ^ shift + (multiple + 1) * 2 ^ shift) * denominator =
          (2 * multiple + 1) * (denominator * 2 ^ shift) := by ring
      rw [Nat.add_le_add_iff_left, divideToEven_le_iff power, Nat.add_assoc, here, next, sum,
        shifted_mod_two wide]

omit wide in
/-- Rounding a quotient is rounding its value. -/
theorem round_eq_nearest (numerator : Nat) {denominator : Nat} (positive : 0 < denominator) :
    format.round numerator denominator = format.nearest ((numerator : ℚ) / denominator) := by
  have quotient : (0 : ℚ) ≤ numerator / denominator :=
    div_nonneg (Nat.cast_nonneg _) (Nat.cast_nonneg _)
  have cross : numerator * ((numerator : ℚ) / denominator).den =
      ((numerator : ℚ) / denominator).num.toNat * denominator := by
    have fraction := Rat.num_div_den ((numerator : ℚ) / denominator)
    have sign := Rat.num_nonneg.mpr quotient
    rw [div_eq_div_iff (by exact_mod_cast Rat.den_ne_zero _) (by exact_mod_cast positive.ne')] at fraction
    zify
    rw [Int.toNat_of_nonneg sign]
    exact_mod_cast fraction.symm
  unfold nearest
  exact Nat.le_antisymm (round_mono format positive (Rat.den_pos _) cross.le)
    (round_mono format (Rat.den_pos _) positive cross.ge)

omit wide in
/-- A magnitude as the quotient that is rounded for it. -/
theorem num_div_den_of_nonneg {magnitude : ℚ} (sign : 0 ≤ magnitude) :
    (magnitude.num.toNat : ℚ) / magnitude.den = magnitude := by
  have numerator : (magnitude.num.toNat : ℚ) = magnitude.num := by
    exact_mod_cast Int.toNat_of_nonneg (Rat.num_nonneg.mpr sign)
  rw [numerator, Rat.num_div_den]

/-- A magnitude is rounded to at most a code if it lies below the middle between that code and the next
one, or just there, and the code is even. -/
theorem nearest_le_iff {magnitude : ℚ} (sign : 0 ≤ magnitude) {bound : Nat}
    (finite : bound < format.infinity) :
    format.nearest magnitude ≤ bound ↔
      magnitude < format.middle bound ∨ magnitude = format.middle bound ∧ bound % 2 = 0 := by
  have positive : (0 : ℚ) < magnitude.den := by exact_mod_cast Rat.den_pos magnitude
  have one := format.unitsPerOne_cast_pos
  have sum : format.middle bound = ((format.units bound + format.units (bound + 1) : Nat) : ℚ) /
      (2 * format.unitsPerOne) := by
    unfold middle value
    push_cast
    rw [← add_div, div_div, mul_comm]
  nth_rewrite 2 3 [← num_div_den_of_nonneg sign]
  rw [nearest, round_le_iff wide (Rat.den_pos _) finite, sum,
    div_lt_div_iff₀ positive (by linarith), div_eq_div_iff positive.ne' (by linarith)]
  norm_cast
  rw [Nat.mul_left_comm]

omit wide in
/-- A larger magnitude is not rounded to a smaller code. -/
theorem nearest_mono {magnitude larger : ℚ} (sign : 0 ≤ magnitude) (ordered : magnitude ≤ larger) :
    format.nearest magnitude ≤ format.nearest larger := by
  refine round_mono format (Rat.den_pos _) (Rat.den_pos _) ?_
  have positive : (0 : ℚ) < magnitude.den := by exact_mod_cast Rat.den_pos magnitude
  have positiveOther : (0 : ℚ) < larger.den := by exact_mod_cast Rat.den_pos larger
  have signOther := sign.trans ordered
  rw [← num_div_den_of_nonneg sign, ← num_div_den_of_nonneg signOther,
    div_le_div_iff₀ positive positiveOther] at ordered
  exact_mod_cast ordered

omit wide in
theorem nearest_le_infinity (magnitude : ℚ) : format.nearest magnitude ≤ format.infinity :=
  format.round_le_infinity _ _

/-- A magnitude is rounded to at least a code if it lies above the middle between that code and the one
before, or just there, and the code is even. -/
theorem lt_nearest_iff {magnitude : ℚ} (sign : 0 ≤ magnitude) {bound : Nat}
    (finite : bound < format.infinity) :
    bound < format.nearest magnitude ↔
      format.middle bound < magnitude ∨ magnitude = format.middle bound ∧ (bound + 1) % 2 = 0 := by
  rw [← Nat.not_le, nearest_le_iff wide sign finite]
  rcases lt_trichotomy magnitude (format.middle bound) with less | same | more
  · simp [less, less.ne, less.le]
  · simp [same]
    omega
  · simp [more, more.ne', more.le]

/-- A magnitude that has a code is rounded to that code. -/
theorem nearest_value {code : Nat} (finite : code ≤ format.infinity) :
    format.nearest (format.value code) = code := by
  have sign := format.value_nonneg code
  refine Nat.le_antisymm ?_ ?_
  · rcases Nat.lt_or_eq_of_le finite with less | rfl
    · exact (nearest_le_iff wide sign less).mpr (.inl (format.value_lt_middle code))
    · exact nearest_le_infinity _
  · cases code with
    | zero => exact Nat.zero_le _
    | succ code => exact (lt_nearest_iff wide sign finite).mpr (.inl (format.middle_lt_value code))

/-! ### The nearest code -/

omit wide in
theorem abs_sub_lt_of_lt_middle {x first second : ℚ} (ordered : first < second)
    (less : x < (first + second) / 2) : |x - first| < |x - second| := by
  rw [abs_sub_comm x second, abs_of_pos (show 0 < second - x by linarith), abs_lt]
  constructor <;> linarith

omit wide in
theorem abs_sub_lt_of_middle_lt {x first second : ℚ} (ordered : first < second)
    (more : (first + second) / 2 < x) : |x - second| < |x - first| := by
  rw [abs_of_pos (show 0 < x - first by linarith), abs_lt]
  constructor <;> linarith

omit wide in
theorem abs_sub_eq_iff_of_lt {x first second : ℚ} (ordered : first < second) :
    |x - first| = |x - second| ↔ x = (first + second) / 2 := by
  rcases lt_trichotomy x ((first + second) / 2) with less | rfl | more
  · exact iff_of_false (abs_sub_lt_of_lt_middle ordered less).ne less.ne
  · refine iff_of_true ?_ rfl
    rw [abs_sub_comm _ second]
    congr 1
    ring
  · exact iff_of_false (abs_sub_lt_of_middle_lt ordered more).ne' more.ne'

/-- Rounding finds a nearest code. -/
theorem nearestEven_nearest {magnitude : ℚ} (sign : 0 ≤ magnitude) :
    format.NearestEven magnitude (format.nearest magnitude) := by
  refine ⟨nearest_le_infinity _, fun other finite different => ?_⟩
  have bounded : format.nearest magnitude ≤ format.infinity := nearest_le_infinity _
  generalize rounded : format.nearest magnitude = code at bounded different ⊢
  rcases Nat.lt_or_gt_of_ne different with less | more
  · -- The magnitude is not below the middle between the code and the one before.
    obtain ⟨before, rfl⟩ : ∃ before, code = before + 1 := Nat.exists_eq_succ_of_ne_zero (by omega)
    have ordered := format.value_strictMono less
    have behind : format.value other ≤ format.value before :=
      format.value_strictMono.monotone (Nat.le_of_lt_succ less)
    have finiteBefore : before < format.infinity := by omega
    have above := (lt_nearest_iff wide sign finiteBefore).mp (by omega)
    unfold middle at above
    by_cases beyond : (format.value other + format.value (before + 1)) / 2 < magnitude
    · exact .inl (abs_sub_lt_of_middle_lt ordered beyond)
    · obtain further | ⟨tie, even⟩ := above
      · linarith
      · have middle : magnitude = (format.value other + format.value (before + 1)) / 2 := by linarith
        exact .inr ⟨((abs_sub_eq_iff_of_lt ordered).mpr middle).symm, even⟩
  · -- The magnitude is not above the middle between the code and the next one.
    have ordered := format.value_strictMono more
    have ahead : format.value (code + 1) ≤ format.value other :=
      format.value_strictMono.monotone more
    have finiteCode : code < format.infinity := by omega
    have below := (nearest_le_iff wide sign finiteCode).mp rounded.le
    unfold middle at below
    by_cases within : magnitude < (format.value code + format.value other) / 2
    · exact .inl (abs_sub_lt_of_lt_middle ordered within)
    · obtain nearer | ⟨tie, even⟩ := below
      · linarith
      · have middle : magnitude = (format.value code + format.value other) / 2 := by linarith
        exact .inr ⟨(abs_sub_eq_iff_of_lt ordered).mpr middle, even⟩

omit wide in
/-- If two codes are both as near as any other, then one that lies between them is nearer, unless they are
neighbours, and these are not both even. -/
theorem NearestEven.le {magnitude : ℚ} {first second : Nat} (one : format.NearestEven magnitude first)
    (other : format.NearestEven magnitude second) : second ≤ first := by
  by_contra less
  rw [Nat.not_le] at less
  have ordered := format.value_strictMono less
  obtain forward | ⟨tie, evenFirst⟩ := one.2 second other.1 less.ne'
  · obtain backward | ⟨tie, _⟩ := other.2 first one.1 less.ne
    · exact lt_asymm forward backward
    · exact forward.ne tie.symm
  · obtain backward | ⟨_, evenSecond⟩ := other.2 first one.1 less.ne
    · exact backward.ne tie.symm
    · have middle := (abs_sub_eq_iff_of_lt ordered).mp tie
      have next := format.value_strictMono (Nat.lt_succ_self first)
      have last := format.value_strictMono (show first + 1 < second by omega)
      have nearer : |magnitude - format.value (first + 1)| < |magnitude - format.value first| :=
        abs_sub_lt_of_middle_lt next (by linarith)
      obtain closest | ⟨same, _⟩ := one.2 (first + 1) (by have := other.1; omega) (by omega)
      · exact lt_asymm closest nearer
      · exact nearer.ne same.symm

/-- **Rounding finds the one nearest code**, the even one if two are equally near. -/
theorem nearestEven_iff {magnitude : ℚ} (sign : 0 ≤ magnitude) {code : Nat} :
    format.NearestEven magnitude code ↔ code = format.nearest magnitude := by
  have found := nearestEven_nearest wide sign
  constructor
  · intro nearest
    exact Nat.le_antisymm (found.le nearest) (nearest.le found)
  · rintro rfl
    exact found

end Boundaries

end Format

end Lisplet
