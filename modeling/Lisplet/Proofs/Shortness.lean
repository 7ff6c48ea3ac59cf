import Lisplet.Proofs.ReadBack

/-!
How short the texts of floats are.

At each length only the nearest decimal is tried for the text of a float, and not the one on its other
side. Nothing is lost where the magnitudes that are read as the float reach as far on one side as on the
other. At a power of two they reach half as far below it as above, so there the nearest decimal may lie
below and be read as another float, while its opposite is read as this one. That happens for three floats.

* `Single.codeOf_le_normal`: where reading passes from one float to the next.
* `Single.codeOf_eq_iff`, `Single.codeOf_power_iff`: the magnitudes that are read as a float that is not a
  power of two, and as one that is.
* `Single.IsAwkward`, `Single.mem_awkward`: the powers of two for which the nearest decimal is not enough.
* `Single.readsBackAt_of_opposed`: otherwise it is.
* `Single.text_shortest_iff`: the floats whose text is the shortest.
-/

namespace Lisplet

open Format (single double)

namespace Single

/-! ### Where reading passes to the next float -/

/-- How many bits the 64-bit format has below the units of the 32-bit format at the same exponent. -/
def fineBits : Nat := 896

/-- A step of the 32-bit format has `2 ^ 29` steps of the 64-bit format. -/
theorem step_fine (shift : Nat) : single.step shift = 2 ^ 29 * double.step (shift + fineBits) := by
  rw [step_eq, show shift + finerBits = shift + fineBits + 26 from rfl, double.step_add]
  ring

variable {shift multiple : Nat} {magnitude : ℚ}

/-- Half a 64-bit step behind the middle between a normal float and the next one, or half a step in front
of it, reading passes to the next one. -/
theorem codeOf_le_normal (normal : single.fractions ≤ multiple) (below : multiple < 2 * single.fractions)
    (finite : shift * single.fractions + multiple < single.infinity) (sign : 0 ≤ magnitude) :
    codeOf magnitude ≤ shift * single.fractions + multiple ↔
      multiple % 2 = 0 ∧ magnitude ≤ ((2 * multiple + 1) * 2 ^ 28 + 1 / 2) * double.step (shift + fineBits) ∨
        multiple % 2 = 1 ∧
          magnitude < ((2 * multiple + 1) * 2 ^ 28 - 1 / 2) * double.step (shift + fineBits) := by
  have narrow : single.fractions = 2 ^ 23 := rfl
  have wide : double.fractions = 2 ^ 52 := rfl
  obtain ⟨before, last⟩ : ∃ before, (2 * multiple + 1) * 2 ^ 28 = before + 1 :=
    Nat.exists_eq_succ_of_ne_zero (by omega)
  have cast : ((2 * multiple + 1) * 2 ^ 28 : ℚ) = before + 1 := by exact_mod_cast last
  have middle : double.value ((shift + fineBits) * double.fractions + before + 1) =
      single.middle (shift * single.fractions + multiple) := by
    rw [Nat.add_assoc, double.value_shifted (.inr (by omega)) (by omega),
      single.middle_shifted (.inr normal) below, step_fine]
    push_cast
    rw [← cast]
    ring
  have finiteWide : (shift + fineBits) * double.fractions + before + 1 < double.infinity := by
    have last : single.infinity = 255 * 2 ^ 23 := rfl
    have few : shift + fineBits + 2 ≤ 2047 := by
      rw [narrow] at finite
      unfold fineBits
      omega
    have most := Nat.mul_le_mul_right double.fractions few
    rw [Nat.add_mul] at most
    exact lt_of_lt_of_le (by omega) most
  have odd : ((shift + fineBits) * double.fractions + before) % 2 = 1 := by
    rw [Format.shifted_mod_two double_wide]
    omega
  rw [codeOf_le_iff sign finite finiteWide odd middle, Format.shifted_mod_two single_wide, Nat.add_assoc,
    double.middle_shifted (.inr (by omega)) (by omega), double.middle_shifted (.inr (by omega)) (by omega)]
  push_cast
  rw [cast]
  ring_nf

/-- The magnitudes that are read as a normal float that is not a power of two. -/
theorem codeOf_eq_iff (normal : single.fractions < multiple) (below : multiple < 2 * single.fractions)
    (finite : shift * single.fractions + multiple < single.infinity) (sign : 0 ≤ magnitude) :
    codeOf magnitude = shift * single.fractions + multiple ↔
      multiple % 2 = 0 ∧ |magnitude - single.value (shift * single.fractions + multiple)| ≤
          (2 ^ 28 + 1 / 2) * double.step (shift + fineBits) ∨
        multiple % 2 = 1 ∧ |magnitude - single.value (shift * single.fractions + multiple)| <
          (2 ^ 28 - 1 / 2) * double.step (shift + fineBits) := by
  obtain ⟨before, rfl⟩ : ∃ before, multiple = before + 1 := Nat.exists_eq_succ_of_ne_zero (by omega)
  have upper := codeOf_le_normal normal.le below finite sign
  have lower : codeOf magnitude ≤ shift * single.fractions + before ↔ _ :=
    codeOf_le_normal (by omega) (by omega) (by omega) sign
  have both : codeOf magnitude = shift * single.fractions + (before + 1) ↔
      codeOf magnitude ≤ shift * single.fractions + (before + 1) ∧
        ¬codeOf magnitude ≤ shift * single.fractions + before := by omega
  rw [both, upper, lower, single.value_shifted (.inr normal.le) below.le, step_fine]
  generalize double.step (shift + fineBits) = fine
  push_cast
  rcases Nat.mod_two_eq_zero_or_one before with even | odd
  · have uneven : (before + 1) % 2 = 1 := by omega
    simp only [even, uneven, one_ne_zero, zero_ne_one, true_and, false_and, false_or, or_false, abs_lt,
      not_le]
    constructor <;> rintro ⟨least, most⟩ <;> constructor <;> linarith
  · have even : (before + 1) % 2 = 0 := by omega
    simp only [odd, even, one_ne_zero, zero_ne_one, true_and, false_and, false_or, or_false, abs_le, not_lt]
    constructor <;> rintro ⟨least, most⟩ <;> constructor <;> linarith

/-- The magnitudes that are read as a power of two that is a normal float, but not the smallest one: they
reach half as far below it as above it. -/
theorem codeOf_power_iff (finite : (shift + 1) * single.fractions + single.fractions < single.infinity)
    (sign : 0 ≤ magnitude) :
    codeOf magnitude = (shift + 1) * single.fractions + single.fractions ↔
      single.value ((shift + 1) * single.fractions + single.fractions) - magnitude ≤
          (2 ^ 27 + 1 / 4) * double.step (shift + 1 + fineBits) ∧
        magnitude - single.value ((shift + 1) * single.fractions + single.fractions) ≤
          (2 ^ 28 + 1 / 2) * double.step (shift + 1 + fineBits) := by
  have narrow : single.fractions = 2 ^ 23 := rfl
  have sum : (shift + 1) * single.fractions = shift * single.fractions + single.fractions :=
    Nat.succ_mul _ _
  have upper := codeOf_le_normal (Nat.le_refl _) (by omega) finite sign
  have lower : codeOf magnitude ≤ shift * single.fractions + (2 ^ 24 - 1) ↔ _ :=
    codeOf_le_normal (by omega) (by omega) (by omega) sign
  have both : codeOf magnitude = (shift + 1) * single.fractions + single.fractions ↔
      codeOf magnitude ≤ (shift + 1) * single.fractions + single.fractions ∧
        ¬codeOf magnitude ≤ shift * single.fractions + (2 ^ 24 - 1) := by omega
  have odd : (2 ^ 24 - 1) % 2 = 1 := rfl
  have even : single.fractions % 2 = 0 := rfl
  have bits : shift + 1 + fineBits = shift + fineBits + 1 := by omega
  rw [both, upper, lower, single.value_shifted (.inr (Nat.le_refl _)) (by omega), step_fine, bits,
    double.step_add, odd, even, narrow]
  generalize double.step (shift + fineBits) = fine
  simp only [one_ne_zero, zero_ne_one, true_and, false_and, false_or, or_false, not_lt]
  push_cast
  constructor <;> rintro ⟨most, least⟩ <;> constructor <;> linarith

/-! ### The smallest floats -/

section Small

variable {code : Nat} (small : code ≤ single.fractions)

theorem value_small (small : code ≤ 2 * single.fractions) : single.value code = code * single.step 0 := by
  rw [← single.value_shifted (.inl rfl) small, Nat.zero_mul, Nat.zero_add]

theorem lt_infinity_of_small (small : code ≤ single.fractions) : code < single.infinity :=
  lt_of_le_of_lt small (by decide)

include small

/-- Up to the smallest normal float all steps are equal. -/
theorem steps_small : single.value (code + 1) - single.value code = single.step 0 := by
  have positive := single.fractions_pos
  rw [value_small (by omega), value_small (by omega)]
  push_cast
  ring

/-- A magnitude that is read as one of these floats is less than five eighths of a step away. -/
theorem close_of_codeOf_eq (sign : 0 ≤ magnitude) (reads : codeOf magnitude = code) :
    |magnitude - single.value code| < 5 / 8 * single.step 0 := by
  have step := steps_small small
  have unit := single.step_pos 0
  rw [abs_lt]
  constructor
  · by_contra far
    cases code with
    | zero =>
      rw [value_small (Nat.zero_le _), Nat.cast_zero, zero_mul] at far
      linarith
    | succ before =>
      have stepBefore := steps_small (Nat.le_of_succ_le small)
      have early : codeOf magnitude ≤ before :=
        codeOf_le_of_le (lt_infinity_of_small (Nat.le_of_succ_le small)) sign (by linarith)
      omega
  · by_contra far
    have late : code < codeOf magnitude :=
      lt_codeOf_of_le (lt_infinity_of_small small) (by linarith)
    omega

/-- A magnitude that is at most three eighths of a step away from one of these floats is read as it. -/
theorem codeOf_eq_of_close (sign : 0 ≤ magnitude)
    (close : |magnitude - single.value code| ≤ 3 / 8 * single.step 0) : codeOf magnitude = code := by
  have step := steps_small small
  obtain ⟨least, most⟩ := abs_le.mp close
  refine Nat.le_antisymm (codeOf_le_of_le (lt_infinity_of_small small) sign (by linarith)) ?_
  cases code with
  | zero => exact Nat.zero_le _
  | succ before =>
    have stepBefore := steps_small (Nat.le_of_succ_le small)
    exact lt_codeOf_of_le (lt_infinity_of_small (Nat.le_of_succ_le small)) (by linarith)

end Small

/-! ### Powers of two -/

/-- A power of two has `2 ^ 52` fine steps, and the decimals next to it are so many other steps apart. The
lower one is nearer, but farther away than a quarter of the step between floats, while the upper one is not
farther away than half of it. Both bounds are a little more generous, for the sake of the first rounding. -/
def IsAwkward (fine step : Nat) : Prop :=
  (2 ^ 29 + 1) * fine < 4 * (2 ^ 52 * fine % step) ∧ 2 * (2 ^ 52 * fine % step) ≤ step ∧
    2 * step ≤ (2 ^ 29 + 1) * fine + 2 * (2 ^ 52 * fine % step)

instance (fine step : Nat) : Decidable (IsAwkward fine step) :=
  inferInstanceAs (Decidable (_ ∧ _ ∧ _))

/-- The distances of a power of two from the decimals next to it. -/
theorem isAwkward_of_sides {fine step : Nat} (whole : Nat) {unit : ℚ} (positive : 0 < unit)
    (least : whole * (step * unit) ≤ 2 ^ 52 * (fine * unit))
    (side : 2 ^ 52 * (fine * unit) - whole * (step * unit) ≤
      (whole + 1) * (step * unit) - 2 ^ 52 * (fine * unit))
    (near : (2 ^ 27 + 1 / 4) * (fine * unit) < 2 ^ 52 * (fine * unit) - whole * (step * unit))
    (far : (whole + 1) * (step * unit) - 2 ^ 52 * (fine * unit) ≤ (2 ^ 28 + 1 / 2) * (fine * unit)) :
    IsAwkward fine step := by
  have atMost : whole * step ≤ 2 ^ 52 * fine := by
    rw [← mul_assoc, ← mul_assoc] at least
    exact_mod_cast le_of_mul_le_mul_right least positive
  obtain ⟨rest, split⟩ := Nat.exists_eq_add_of_le atMost
  have below : 2 ^ 52 * (fine * unit) - whole * (step * unit) = rest * unit := by
    have cast : (2 ^ 52 * fine : ℚ) = whole * step + rest := by exact_mod_cast split
    rw [← mul_assoc, cast]
    ring
  have above : (whole + 1) * (step * unit) - 2 ^ 52 * (fine * unit) = (step - rest) * unit := by
    rw [sub_mul, ← below]
    ring
  rw [below, above] at side
  rw [below, ← mul_assoc] at near
  rw [above, ← mul_assoc] at far
  have sideSteps : (rest : ℚ) ≤ step - rest := le_of_mul_le_mul_right side positive
  have nearSteps := lt_of_mul_lt_mul_right near positive.le
  have farSteps := le_of_mul_le_mul_right far positive
  have nonzero : (0 : ℚ) < rest := lt_of_le_of_lt (by positivity) nearSteps
  have proper : rest < step := by
    have cast : (rest : ℚ) < step := by linarith
    exact_mod_cast cast
  rw [IsAwkward, split, Nat.mul_add_mod_of_lt proper]
  refine ⟨?_, ?_, ?_⟩
  · exact_mod_cast (show ((2 ^ 29 + 1) * fine : ℚ) < 4 * rest by linarith)
  · exact_mod_cast (show (2 * rest : ℚ) ≤ step by linarith)
  · exact_mod_cast (show (2 * step : ℚ) ≤ (2 ^ 29 + 1) * fine + 2 * rest by linarith)

/-- Fine steps and powers of ten are multiples of this. -/
def commonUnit : ℚ := 1 / (2 ^ 178 * 10 ^ 45)

/-- A fine step in common units. -/
def fineUnits (shift : Nat) : Nat := 2 ^ shift * 10 ^ 45

/-- A power of ten in common units. -/
def tenUnits (place : Nat) : Nat := 10 ^ place * 2 ^ 178

theorem step_eq_div (shift : Nat) : double.step (shift + fineBits) = 2 ^ shift / 2 ^ 178 := by
  have one : double.unitsPerOne = 2 ^ fineBits * 2 ^ 178 := by
    have bits : double.unitBits = fineBits + 178 := rfl
    rw [Format.unitsPerOne, bits, Nat.pow_eq, pow_add]
  rw [Format.step, one, pow_add, Nat.cast_mul, Nat.cast_pow, Nat.cast_pow, Nat.cast_ofNat]
  field_simp

theorem step_eq_fineUnits (shift : Nat) :
    double.step (shift + fineBits) = fineUnits shift * commonUnit := by
  rw [step_eq_div, fineUnits, commonUnit, Nat.cast_mul, Nat.cast_pow, Nat.cast_pow, Nat.cast_ofNat,
    Nat.cast_ofNat]
  field_simp

/-- A power of ten that is larger than the step between floats is not that small. -/
theorem exponent_of_step_lt (shift : Nat) {exponent : Int}
    (larger : 2 ^ 28 * double.step (shift + 1 + fineBits) < 10 ^ exponent) : -45 < exponent := by
  have two : (2 : ℚ) ≤ 2 ^ (shift + 1) := le_self_pow₀ (by norm_num) (Nat.succ_ne_zero _)
  have least : (10 : ℚ) ^ (-45 : Int) < 10 ^ exponent := by
    calc (10 : ℚ) ^ (-45 : Int) < 2 ^ 28 * (2 / 2 ^ 178) := by norm_num
      _ ≤ 2 ^ 28 * (2 ^ (shift + 1) / 2 ^ 178) := by gcongr
      _ = 2 ^ 28 * double.step (shift + 1 + fineBits) := by rw [step_eq_div]
      _ < 10 ^ exponent := larger
  exact (zpow_lt_zpow_iff_right₀ (by norm_num)).mp least

theorem zpow_eq_tenUnits {place : Nat} {exponent : Int} (same : (place : Int) = exponent + 45) :
    (10 : ℚ) ^ exponent = tenUnits place * commonUnit := by
  rw [show exponent = (place : Int) - (45 : Nat) by omega, zpow_sub₀ (by norm_num), zpow_natCast,
    zpow_natCast, tenUnits, commonUnit, Nat.cast_mul, Nat.cast_pow, Nat.cast_pow, Nat.cast_ofNat,
    Nat.cast_ofNat]
  field_simp

/-- The largest power of ten that is not larger than the step between floats behind a power of two. Here
`28 / 93` stands for the logarithm of two. -/
def placeOf (shift : Nat) : Nat := (28 * shift + 14) / 93

/-- The powers of two for which the nearest decimals are not enough, and the steps of these. -/
def awkward : List (Nat × Nat) := [(30, 9), (213, 64), (216, 65)]

/-- The codes of these floats: `2 ^ -96`, `2 ^ 87` and `2 ^ 90`. -/
def longCodes : List Nat := [31 * 2 ^ 23, 214 * 2 ^ 23, 217 * 2 ^ 23]

theorem awkward_spec : ∀ pair ∈ awkward, pair.1 * single.fractions + single.fractions ∈ longCodes ∧
    leadingExponent (double.units (wideCode (pair.1 * single.fractions + single.fractions)))
      double.unitsPerOne + 38 = pair.2 := by
  decide +kernel

theorem placeOf_spec : ∀ shift ∈ List.range 254,
    (2 ^ 29 + 1) * fineUnits shift < tenUnits (placeOf shift + 1) ∧
      tenUnits (placeOf shift) ≤ 10 * (2 ^ 28 * fineUnits shift) ∧
      (IsAwkward (fineUnits shift) (tenUnits (placeOf shift)) → (shift, placeOf shift) ∈ awkward) := by
  decide +kernel

theorem tenUnits_mono {first second : Nat} (ordered : first ≤ second) : tenUnits first ≤ tenUnits second :=
  Nat.mul_le_mul_right _ (Nat.pow_le_pow_right (by decide) ordered)

/-- For each power of two the step between the decimals can be awkward only at one length. -/
theorem mem_awkward {shift place : Nat} (few : shift < 254)
    (isAwkward : IsAwkward (fineUnits shift) (tenUnits place)) : (shift, place) ∈ awkward := by
  obtain ⟨below, above, listed⟩ := placeOf_spec shift (List.mem_range.mpr few)
  have same : place = placeOf shift := by
    obtain ⟨least, middle, most⟩ := isAwkward
    refine Nat.le_antisymm ?_ ?_
    · by_contra more
      have larger : tenUnits (placeOf shift + 1) ≤ tenUnits place := tenUnits_mono (by omega)
      omega
    · by_contra less
      have smaller : tenUnits (place + 1) ≤ tenUnits (placeOf shift) := tenUnits_mono (by omega)
      have tenfold : tenUnits (place + 1) = 10 * tenUnits place := by
        unfold tenUnits
        ring
      omega
  subst same
  exact listed isAwkward

/-! ### The two neighbours of a float -/

/-- Between two magnitudes that are read as the same float, all others are. -/
theorem codeOf_between {first second : ℚ} {code : Nat} (sign : 0 ≤ first) (least : first ≤ magnitude)
    (most : magnitude ≤ second) (reads : codeOf first = code) (readsLast : codeOf second = code) :
    codeOf magnitude = code :=
  Nat.le_antisymm (readsLast ▸ codeOf_mono (sign.trans least) most) (reads ▸ codeOf_mono sign least)

section Neighbours

variable {number : Single} (finite : number.isFinite = true) (nonzero : number.code ≠ 0) {count : Nat}

/-- The decimal with so many digits on the other side of a float than the candidate for its text. -/
def opposed (number : Single) (count : Nat) : Decimal :=
  Decimal.opposite count number.wideUnits double.unitsPerOne

/-- The step between the two. -/
def decimalStep (number : Single) (count : Nat) : ℚ :=
  Decimal.stepOf count number.wideUnits double.unitsPerOne

include finite nonzero

/-- The candidate is not farther away than its opposite, and they are a step apart. -/
theorem candidate_beside_opposed (count : Nat) :
    |(number.candidate count).value - number.magnitude| ≤ |(number.opposed count).value - number.magnitude| ∧
      |(number.candidate count).value - number.magnitude| +
        |(number.opposed count).value - number.magnitude| = number.decimalStep count := by
  rw [candidate_of_ne_zero finite nonzero, ← wideUnits_div finite]
  exact Decimal.nearest_beside_opposite count number.wideUnits double.unitsPerOne_pos

/-- The steps up to the smallest normal float are not close to a power of ten, so if the opposite decimal
is read back, then the nearest one is. -/
theorem readsBackAt_of_small (small : number.code ≤ single.fractions)
    (reads : codeOf (number.opposed count).value = number.code) : number.ReadsBackAt count := by
  by_contra differs
  obtain ⟨nearer, apart⟩ := candidate_beside_opposed finite nonzero count
  have far := close_of_codeOf_eq small (Decimal.value_nonneg _) reads
  rw [value_code] at far
  have near : 3 / 8 * single.step 0 < |(number.candidate count).value - number.magnitude| := by
    by_contra close
    exact differs (codeOf_eq_of_close small (Decimal.value_nonneg _) (not_lt.mp close))
  have unit : single.step 0 = 1 / 2 ^ 149 := by
    rw [Format.step, pow_zero, show single.unitsPerOne = 2 ^ 149 from rfl, Nat.cast_pow, Nat.cast_ofNat]
  -- The step is a power of ten between these two neighbouring ones.
  have least : (10 : ℚ) ^ (-45 : Int) < number.decimalStep count := by
    refine lt_trans ?_ (show 3 / 4 * single.step 0 < number.decimalStep count by linarith)
    rw [unit]
    norm_num
  have most : number.decimalStep count < (10 : ℚ) ^ (-44 : Int) := by
    refine lt_trans (show number.decimalStep count < 5 / 4 * single.step 0 by linarith) ?_
    rw [unit]
    norm_num
  rw [decimalStep, Decimal.stepOf, zpow_lt_zpow_iff_right₀ (by norm_num)] at least most
  omega

/-- The decimals on either side of a power of two, if only the farther one is read back. -/
theorem isAwkward_of_power {shift : Nat}
    (code : number.code = (shift + 1) * single.fractions + single.fractions)
    (reads : codeOf (number.opposed count).value = number.code) (differs : ¬number.ReadsBackAt count) :
    ∃ place : Nat, (place : Int) = Decimal.lastExponent count number.wideUnits double.unitsPerOne + 45 ∧
      IsAwkward (fineUnits (shift + 1)) (tenUnits place) := by
  have cases := Decimal.nearest_opposite_cases count number.wideUnits double.unitsPerOne_pos
  obtain ⟨least, less⟩ := Decimal.wholeSteps_bounds count number.wideUnits double.unitsPerOne_pos
  have finiteCode := code_lt_infinity finite
  have magnitude : number.magnitude = 2 ^ 52 * double.step (shift + 1 + fineBits) := by
    rw [← value_code, code,
      single.value_shifted (.inr (Nat.le_refl _)) (Nat.le_mul_of_pos_left _ (by decide)),
      step_fine, show single.fractions = 2 ^ 23 from rfl]
    push_cast
    ring
  have readsIff (decimal : Decimal) := codeOf_power_iff (code ▸ finiteCode) decimal.value_nonneg
  simp only [← code, value_code] at readsIff
  rw [opposed, readsIff] at reads
  rw [ReadsBackAt, readsIff, candidate_of_ne_zero finite nonzero] at differs
  simp only [wideUnits_div finite] at cases least less
  have fine := double.step_pos (shift + 1 + fineBits)
  obtain ⟨near, far, side⟩ | ⟨near, far, side⟩ := cases
  · rw [far] at reads
    rw [near] at differs
    have away : (2 ^ 27 + 1 / 4) * double.step (shift + 1 + fineBits) < _ :=
      not_le.mp fun close => differs ⟨close, by linarith⟩
    have exponent : -45 < Decimal.lastExponent count number.wideUnits double.unitsPerOne := by
      refine exponent_of_step_lt shift ?_
      rw [← Decimal.stepOf]
      linarith
    obtain ⟨place, same⟩ := Int.eq_ofNat_of_zero_le
      (show 0 ≤ Decimal.lastExponent count number.wideUnits double.unitsPerOne + 45 by omega)
    have unit : 0 < commonUnit := by
      unfold commonUnit
      positivity
    refine ⟨place, same.symm, isAwkward_of_sides
      (Decimal.wholeSteps count number.wideUnits double.unitsPerOne) unit ?_ ?_ ?_ ?_⟩
    all_goals rw [← step_eq_fineUnits, ← magnitude, ← zpow_eq_tenUnits same.symm]
    · exact least
    · exact side
    · exact away
    · exact reads.2
  · rw [far] at reads
    rw [near] at differs
    exact absurd ⟨by linarith, by linarith⟩ differs

omit finite nonzero in
/-- The awkward steps are those of decimals with eight digits. -/
theorem count_of_awkward {shift place : Nat}
    (code : number.code = shift * single.fractions + single.fractions)
    (same : (place : Int) = Decimal.lastExponent count number.wideUnits double.unitsPerOne + 45)
    (member : (shift, place) ∈ awkward) : number.code ∈ longCodes ∧ count = 8 := by
  obtain ⟨long, leading⟩ := awkward_spec _ member
  rw [← code] at long leading
  rw [Decimal.lastExponent, wideUnits] at same
  exact ⟨long, by omega⟩

/-- If the opposite decimal is read back, then the nearest one is, but for three powers of two and eight
digits. -/
theorem readsBackAt_of_opposed (reads : codeOf (number.opposed count).value = number.code) :
    number.ReadsBackAt count ∨ number.code ∈ longCodes ∧ count = 8 := by
  have finiteCode := code_lt_infinity finite
  obtain ⟨shift, multiple, normal, below, code⟩ := single.exists_shifted number.code
  rcases Nat.lt_or_ge single.fractions multiple with larger | smaller
  · -- Equal steps on both sides.
    left
    obtain ⟨nearer, _⟩ := candidate_beside_opposed finite nonzero count
    rw [code] at finiteCode
    rw [← value_code, code] at nearer
    rw [code, codeOf_eq_iff larger below finiteCode (Decimal.value_nonneg _)] at reads
    rw [ReadsBackAt, code, codeOf_eq_iff larger below finiteCode (Decimal.value_nonneg _)]
    exact reads.imp (And.imp_right nearer.trans) (And.imp_right nearer.trans_lt)
  · cases shift with
    | zero => exact .inl (readsBackAt_of_small finite nonzero (by omega) reads)
    | succ shift =>
      have power : multiple = single.fractions := by omega
      subst power
      by_cases back : number.ReadsBackAt count
      · exact .inl back
      · obtain ⟨place, same, isAwkward⟩ := isAwkward_of_power finite nonzero code reads back
        refine .inr (count_of_awkward code same (mem_awkward ?_ isAwkward))
        rw [code, show single.infinity = 255 * 2 ^ 23 from rfl, show single.fractions = 2 ^ 23 from rfl]
          at finiteCode
        omega

/-- A decimal that is read as a float does not lie between the nearest decimal with as many digits and its
opposite, so that one of these is read as the float as well. -/
theorem readsBackAt_or_opposed {decimal : Decimal} (reads : codeOf decimal.value = number.code) :
    0 < decimal.significantDigits ∧ (number.ReadsBackAt decimal.significantDigits ∨
      codeOf (number.opposed decimal.significantDigits).value = number.code) := by
  have short : decimal.trim.digits < 10 ^ decimal.significantDigits := digitCount_le_iff.mp (Nat.le_refl _)
  have units := wideUnits_pos finite nonzero
  generalize decimal.significantDigits = length at short ⊢
  cases length with
  | zero =>
    have zero : decimal.value = 0 := by
      rw [← decimal.value_trim, Decimal.value, Nat.lt_one_iff.mp short, Nat.cast_zero, zero_mul]
    rw [zero, codeOf_zero] at reads
    exact absurd reads.symm nonzero
  | succ count =>
    refine ⟨Nat.succ_pos _, ?_⟩
    obtain ⟨least, less⟩ := Decimal.wholeSteps_bounds (count + 1) number.wideUnits double.unitsPerOne_pos
    have outside := Decimal.outside_neighbours units double.unitsPerOne_pos short
    have here : codeOf number.magnitude = number.code := codeOf_of_finite (code_lt_infinity finite)
    rw [wideUnits_div finite] at least less
    rw [decimal.value_trim] at outside
    have neighbour : codeOf (Decimal.wholeSteps (count + 1) number.wideUnits double.unitsPerOne *
          Decimal.stepOf (count + 1) number.wideUnits double.unitsPerOne) = number.code ∨
        codeOf ((Decimal.wholeSteps (count + 1) number.wideUnits double.unitsPerOne + 1) *
          Decimal.stepOf (count + 1) number.wideUnits double.unitsPerOne) = number.code := by
      refine outside.imp (fun below => ?_) fun above => ?_
      · exact codeOf_between decimal.value_nonneg below least reads here
      · exact codeOf_between (single.value_nonneg number.code) less.le above here reads
    rw [ReadsBackAt, candidate_of_ne_zero finite nonzero, opposed]
    obtain ⟨near, far, _⟩ | ⟨near, far, _⟩ :=
      Decimal.nearest_opposite_cases (count + 1) number.wideUnits double.unitsPerOne_pos
    · rwa [near, far]
    · rw [near, far]
      exact neighbour.symm

end Neighbours

section Texts

variable {number : Single} (unsigned : number.negative = false) (finite : number.isFinite = true)
  {text : String} (printed : Single.text number = .ok text)

include unsigned finite printed

/-- No shorter decimal than the text is read as the float, but for three powers of two. -/
theorem significantDigits_text_le {decimal : Decimal} (rounded : IsRounded decimal.value number) :
    significantDigits text ≤ decimal.significantDigits ∨
      number.code ∈ longCodes ∧ significantDigits text ≤ decimal.significantDigits + 1 := by
  obtain ⟨count, some, most, rfl, _, shorter⟩ := exists_candidate finite printed
  rw [unsigned, if_neg Bool.false_ne_true, String.empty_append, Decimal.significantDigits_positional]
  by_cases zero : number.code = 0
  · left
    rw [candidate_zero zero, show Decimal.significantDigits ⟨0, 0⟩ = 0 from Decimal.digitCount_zero]
    exact Nat.zero_le _
  · obtain ⟨_, same⟩ := (isRounded_iff decimal.value_nonneg).mp rounded
    obtain ⟨positive, reads⟩ := readsBackAt_or_opposed finite zero (congrArg Floating.code same).symm
    have few := significantDigits_candidate finite some
    by_cases enough : (number.candidate count).significantDigits ≤ decimal.significantDigits
    · exact .inl enough
    · have differs := shorter decimal.significantDigits positive (by omega)
      obtain back | ⟨long, eight⟩ := readsBackAt_of_opposed finite zero (reads.resolve_left differs)
      · exact absurd back differs
      · rw [textDigits] at most
        exact .inr ⟨long, by omega⟩

omit unsigned finite printed in
theorem mem_longCodes_iff : number.code ∈ longCodes ↔
    number.magnitude = 2 ^ (-96 : Int) ∨ number.magnitude = 2 ^ 87 ∨ number.magnitude = 2 ^ 90 := by
  have power (shift : Nat) : single.value (shift * single.fractions + single.fractions) =
      2 ^ 23 * (2 ^ shift / 2 ^ 149) := by
    have positive := single.fractions_pos
    rw [single.value_shifted (.inr (Nat.le_refl _)) (by omega), Format.step,
      show single.unitsPerOne = 2 ^ 149 from rfl, show single.fractions = 2 ^ 23 from rfl]
    push_cast
    rfl
  have first : single.value (31 * 2 ^ 23) = 2 ^ (-96 : Int) := (power 30).trans (by norm_num)
  have second : single.value (214 * 2 ^ 23) = 2 ^ 87 := (power 213).trans (by norm_num)
  have third : single.value (217 * 2 ^ 23) = 2 ^ 90 := (power 216).trans (by norm_num)
  have injective := single.value_strictMono.injective
  rw [← value_code, ← first, ← second, ← third, injective.eq_iff, injective.eq_iff, injective.eq_iff]
  simp only [longCodes, List.mem_cons, List.not_mem_nil, or_false]

end Texts

/-- For each of the three floats, a decimal with eight digits that is read as it. -/
def shorter : List (Nat × Decimal) :=
  [(31 * 2 ^ 23, ⟨12621775, -36⟩), (214 * 2 ^ 23, ⟨15474251, 19⟩), (217 * 2 ^ 23, ⟨12379401, 20⟩)]

theorem shorter_spec : ∀ pair ∈ shorter, pair.2.significantDigits = 8 ∧
    (Double.toSingle (Double.ofDecimal false pair.2)).code = pair.1 ∧
    (Single.text ⟨false, pair.1⟩).toOption.map significantDigits = some 9 := by
  decide +kernel

/-- Their texts have nine digits. -/
theorem exists_shorter {number : Single} (unsigned : number.negative = false)
    (finite : number.isFinite = true) {text : String} (printed : Single.text number = .ok text)
    (long : number.code ∈ longCodes) :
    ∃ decimal : Decimal, IsRounded decimal.value number ∧
      decimal.significantDigits < significantDigits text := by
  obtain ⟨decimal, member⟩ : ∃ decimal, (number.code, decimal) ∈ shorter := by
    obtain ⟨pair, member, same⟩ := List.mem_map.mp (show number.code ∈ shorter.map Prod.fst from long)
    exact ⟨pair.2, by rwa [← same]⟩
  obtain ⟨eight, reads, nine⟩ := shorter_spec _ member
  rw [Double.toSingle_ofDecimal] at reads
  have same : (⟨false, number.code⟩ : Single) = number := by rw [← unsigned]
  rw [same, printed] at nine
  refine ⟨decimal, isRounded_of_codeOf unsigned finite decimal.value_nonneg reads, ?_⟩
  rw [eight, Option.some.inj nine]
  decide

/-- **The text of a float is the shortest decimal that is read as it, but for three powers of two.** For a
finite float without a sign, no decimal with fewer significant digits than its text is rounded to it, by way
of the 64-bit format, just if it is none of `2 ^ -96`, `2 ^ 87` and `2 ^ 90`. For these the text is one
digit too long. -/
theorem text_shortest_iff (number : Single) (unsigned : number.negative = false)
    (finite : number.isFinite = true) (text : String) (printed : Single.text number = .ok text) :
    ((∀ decimal : Decimal, IsRounded decimal.value number →
        significantDigits text ≤ decimal.significantDigits) ↔
      number.magnitude ≠ 2 ^ (-96 : Int) ∧ number.magnitude ≠ 2 ^ 87 ∧ number.magnitude ≠ 2 ^ 90) ∧
    ∀ decimal : Decimal, IsRounded decimal.value number →
      significantDigits text ≤ decimal.significantDigits + 1 := by
  have bound {decimal : Decimal} (rounded : IsRounded decimal.value number) :=
    significantDigits_text_le unsigned finite printed rounded
  rw [← not_or, ← not_or, ← mem_longCodes_iff]
  refine ⟨⟨fun shortest long => ?_, fun regular decimal rounded => ?_⟩, fun decimal rounded => ?_⟩
  · obtain ⟨decimal, rounded, shorter⟩ := exists_shorter unsigned finite printed long
    exact absurd (shortest decimal rounded) (Nat.not_le.mpr shorter)
  · exact (bound rounded).resolve_right fun long => regular long.1
  · obtain enough | ⟨_, almost⟩ := bound rounded
    · exact Nat.le_succ_of_le enough
    · exact almost

/-- A float a little below `2 ^ 87` needs all nine digits of its text. -/
theorem text_shortest_iff_nine_digits :
    let number : Single := ⟨false, 214 * 2 ^ 23 - 13⟩
    let text := "154742385000000000000000000.0"
    Single.text number = .ok text ∧ significantDigits text = 9 ∧
      ∀ decimal : Decimal, IsRounded decimal.value number → 9 ≤ decimal.significantDigits := by
  intro number text
  have printed : Single.text number = .ok text := by decide +kernel
  have nine : significantDigits text = 9 := by decide
  have shortest := (text_shortest_iff number rfl (by decide) text printed).1.mpr
    ⟨by decide +kernel, by decide +kernel, by decide +kernel⟩
  exact ⟨printed, nine, fun decimal rounded => nine ▸ shortest decimal rounded⟩

/-- The text of `2 ^ -96` has nine digits, although a decimal with eight digits is rounded to it and is
written with one character less. -/
theorem long_text_of_two_pow :
    let number : Single := ⟨false, 31 * 2 ^ 23⟩
    let text := "0.0000000000000000000000000000126217745"
    let decimal : Decimal := ⟨12621775, -36⟩
    number.isFinite = true ∧ number.magnitude = 2 ^ (-96 : Int) ∧ Single.text number = .ok text ∧
      IsRounded decimal.value number ∧ decimal.significantDigits < significantDigits text ∧
      decimal.positional = "0.000000000000000000000000000012621775" := by
  intro number text decimal
  have finite : number.isFinite = true := by decide
  have reads : (Double.toSingle (Double.ofDecimal false decimal)).code = number.code := by decide +kernel
  rw [Double.toSingle_ofDecimal] at reads
  exact ⟨finite, by decide +kernel, by decide +kernel,
    isRounded_of_codeOf rfl finite decimal.value_nonneg reads, by decide +kernel, by decide +kernel⟩

end Single

end Lisplet
