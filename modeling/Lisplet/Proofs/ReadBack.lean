import Lisplet.Proofs.DecimalTexts
import Lisplet.Proofs.RoundTrip
import Lisplet.Proofs.Unwritable

/-!
Floats read back.

The text of a float is the first of its nearest decimals, with one digit, with two and so on, that both
roundings take back to the float. With nine digits the nearest decimal is so close that they always do: it
is off by less than an eighth of the step between neighbouring floats, and the eighths of these steps have
64-bit codes, so that the first rounding does not pass them.

* `Single.exists_eighth`: a float and the eighths of the step behind it have 64-bit codes.
* `Single.codeOf_of_close`: what is read for a magnitude that is close to that of a float.
* `Single.candidate`, `Single.ReadsBackAt`: the decimals that are tried, and those that are taken.
* `Single.readsBackAt_textDigits`: nine digits read back.
* `Single.exists_candidate`: what the search for the text finds.
* `Single.text_reads_back`: floats up to `3.4025e38` have texts, and these read back.
-/

namespace Lisplet

open Format (single double)

namespace Single

/-! ### Eighths of a step -/

/-- How many bits the 64-bit format has below the eighths of the smallest positive float. -/
def finerBits : Nat := 922

theorem unitsPerOne_double : double.unitsPerOne = single.unitsPerOne * 8 * 2 ^ finerBits := by
  have bits : double.unitBits = single.unitBits + 3 + finerBits := rfl
  rw [Format.unitsPerOne, Format.unitsPerOne, bits, Nat.pow_eq, Nat.pow_eq, pow_add, pow_add,
    show 2 ^ 3 = 8 from rfl]

/-- An eighth of a step is a power of two in the 64-bit format. -/
theorem step_eq (shift : Nat) : single.step shift = 8 * double.step (shift + finerBits) := by
  have one := single.unitsPerOne_cast_pos
  rw [Format.step, Format.step, unitsPerOne_double, pow_add]
  push_cast
  field_simp

theorem value_infinity_lt : single.value single.infinity < double.value double.infinity := by
  have cross : single.units single.infinity * double.unitsPerOne <
      double.units double.infinity * single.unitsPerOne := by decide +kernel
  rw [Format.value, Format.value, div_lt_div_iff₀ single.unitsPerOne_cast_pos double.unitsPerOne_cast_pos]
  simpa only [Nat.cast_mul] using (Nat.cast_lt (α := ℚ)).mpr cross

/-- A float and the eighths of the step behind it have 64-bit codes. -/
theorem exists_eighth {code eighths : Nat} (finite : code < single.infinity) (most : eighths ≤ 8) :
    ∃ wide < double.infinity, double.value wide =
      single.value code + eighths / 8 * (single.value (code + 1) - single.value code) := by
  have next : single.value (code + 1) ≤ single.value single.infinity :=
    single.value_strictMono.monotone finite
  have step := single.value_strictMono (Nat.lt_succ_self code)
  have part : (eighths / 8 : ℚ) ≤ 1 := by
    rw [div_le_one₀ (by norm_num)]
    exact_mod_cast most
  have last := mul_le_mul_of_nonneg_right part (sub_nonneg.mpr step.le)
  obtain ⟨shift, multiple, normal, below, rfl⟩ := single.exists_shifted code
  have short : 8 * multiple + eighths ≤ 2 * double.fractions := by
    have small : 8 * (2 * single.fractions) ≤ 2 * double.fractions := by decide
    omega
  obtain ⟨wide, value⟩ := double.exists_value_eq short (shift + finerBits)
  have same : double.value wide = single.value (shift * single.fractions + multiple) + eighths / 8 *
      (single.value (shift * single.fractions + multiple + 1) -
        single.value (shift * single.fractions + multiple)) := by
    rw [value, Nat.add_assoc, single.value_shifted normal below.le,
      single.value_shifted (normal.imp_right Nat.le_succ_of_le) below, step_eq]
    push_cast
    ring
  refine ⟨wide, double.value_strictMono.lt_iff_lt.mp (lt_of_le_of_lt ?_ value_infinity_lt), same⟩
  linarith

/-- The magnitude behind a float is at most `2 ^ 24` times the step to it. -/
theorem value_succ_le (code : Nat) :
    single.value (code + 1) ≤ 2 ^ 24 * (single.value (code + 1) - single.value code) := by
  obtain ⟨shift, multiple, normal, below, rfl⟩ := single.exists_shifted code
  have step := single.step_pos shift
  have most : ((multiple + 1 : Nat) : ℚ) ≤ 2 ^ 24 := by
    have few : multiple + 1 ≤ 2 ^ 24 := below
    exact_mod_cast few
  rw [Nat.add_assoc, single.value_shifted normal below.le,
    single.value_shifted (normal.imp_right Nat.le_succ_of_le) below]
  calc ((multiple + 1 : Nat) : ℚ) * single.step shift ≤ 2 ^ 24 * single.step shift :=
        mul_le_mul_of_nonneg_right most step.le
    _ = 2 ^ 24 * ((multiple + 1 : Nat) * single.step shift - multiple * single.step shift) := by
        push_cast
        ring

/-- A float has the same magnitude in the 64-bit format. -/
theorem value_wideCode {code : Nat} (finite : code < single.infinity) :
    double.value (wideCode code) = single.value code := by
  obtain ⟨wide, finiteWide, value⟩ := exists_eighth finite (Nat.zero_le 8)
  rw [Nat.cast_zero, zero_div, zero_mul, add_zero] at value
  have same : wideCode code = wide := by
    rw [wideCode, Format.round_eq_nearest _ single.unitsPerOne_pos, ← Format.value, ← value,
      Format.nearest_value double_wide finiteWide.le]
  rw [same, value]

theorem wideCode_injective {first second : Nat} (finite : first < single.infinity)
    (finiteOther : second < single.infinity) (same : wideCode first = wideCode second) :
    first = second := by
  refine single.value_strictMono.injective ?_
  rw [← value_wideCode finite, ← value_wideCode finiteOther, same]

/-! ### Close to a float -/

/-- The first rounding does not change a magnitude that has a 64-bit code. -/
theorem codeOf_value {wide : Nat} (finite : wide < double.infinity) :
    codeOf (double.value wide) = single.nearest (double.value wide) := by
  rw [codeOf, Format.nearest_value double_wide finite.le]

/-- Up to three eighths of the step behind a float, magnitudes are not read as the next one. -/
theorem codeOf_le_of_le {code : Nat} (finite : code < single.infinity) {magnitude : ℚ} (sign : 0 ≤ magnitude)
    (near : magnitude ≤ single.value code + 3 / 8 * (single.value (code + 1) - single.value code)) :
    codeOf magnitude ≤ code := by
  obtain ⟨wide, finiteWide, value⟩ := exists_eighth finite (show 3 ≤ 8 by decide)
  have step := single.value_strictMono (Nat.lt_succ_self code)
  refine (codeOf_mono sign (near.trans_eq ?_)).trans (?_ : codeOf (double.value wide) ≤ code)
  · rw [value, Nat.cast_ofNat]
  · rw [codeOf_value finiteWide, Format.nearest_le_iff single_wide (double.value_nonneg _) finite, value]
    left
    unfold Format.middle
    push_cast
    linarith

/-- From five eighths of the step behind a float on, magnitudes are not read as that float. -/
theorem lt_codeOf_of_le {code : Nat} (finite : code < single.infinity) {magnitude : ℚ}
    (far : single.value code + 5 / 8 * (single.value (code + 1) - single.value code) ≤ magnitude) :
    code < codeOf magnitude := by
  obtain ⟨wide, finiteWide, value⟩ := exists_eighth finite (show 5 ≤ 8 by decide)
  have step := single.value_strictMono (Nat.lt_succ_self code)
  refine lt_of_lt_of_le (?_ : code < codeOf (double.value wide)) (codeOf_mono (double.value_nonneg _) ?_)
  · rw [codeOf_value finiteWide, Format.lt_nearest_iff single_wide (double.value_nonneg _) finite, value]
    left
    unfold Format.middle
    push_cast
    linarith
  · rwa [value, Nat.cast_ofNat]

/-- What is read for a magnitude that is this close to that of a float. -/
theorem codeOf_of_close {code : Nat} (finite : code < single.infinity) {magnitude : ℚ}
    (sign : 0 ≤ magnitude) (close : |magnitude - single.value code| * 2 ^ 27 ≤ single.value code) :
    codeOf magnitude = code := by
  have above := le_abs_self (magnitude - single.value code)
  have below := neg_abs_le (magnitude - single.value code)
  refine Nat.le_antisymm (codeOf_le_of_le finite sign ?_) ?_
  · have range := value_succ_le code
    linarith
  · cases code with
    | zero => exact Nat.zero_le _
    | succ before =>
      have range := value_succ_le before
      refine lt_codeOf_of_le (by omega) ?_
      linarith

/-- A float is read as itself. -/
theorem codeOf_of_finite {code : Nat} (finite : code < single.infinity) :
    codeOf (single.value code) = code := by
  refine codeOf_of_close finite (single.value_nonneg code) ?_
  rw [sub_self, abs_zero, zero_mul]
  exact single.value_nonneg code

theorem codeOf_zero : codeOf 0 = 0 := by
  rw [← single.value_zero]
  exact codeOf_of_finite (by decide)

/-! ### Candidates for a text -/

section Candidates

variable {number : Single}

/-- The decimal with so many digits that is a candidate for the text of a float. -/
def candidate (number : Single) (count : Nat) : Decimal :=
  Double.nearestDecimal (Single.toDouble number) count

/-- The candidate with so many digits is read as the float. -/
def ReadsBackAt (number : Single) (count : Nat) : Prop :=
  codeOf (number.candidate count).value = number.code

/-- The numerator of a finite float in the 64-bit format. -/
def wideUnits (number : Single) : Nat :=
  double.units (wideCode number.code)

theorem code_lt_infinity (finite : number.isFinite = true) : number.code < single.infinity := by
  simpa only [Floating.isFinite, decide_eq_true_eq] using finite

theorem value_code (number : Single) : single.value number.code = number.magnitude := rfl

theorem wideUnits_div (finite : number.isFinite = true) :
    (number.wideUnits : ℚ) / double.unitsPerOne = number.magnitude :=
  value_wideCode (code_lt_infinity finite)

theorem candidate_zero (zero : number.code = 0) (count : Nat) : number.candidate count = ⟨0, 0⟩ := by
  have finite : number.isFinite = true := by
    simp only [Floating.isFinite, zero]
    decide
  have wide : wideCode number.code = 0 := by
    refine double.value_strictMono.injective ?_
    rw [value_wideCode (code_lt_infinity finite), zero, single.value_zero, double.value_zero]
  rw [candidate, toDouble_of_finite finite, Double.nearestDecimal, if_pos wide]

theorem wideUnits_pos (finite : number.isFinite = true) (nonzero : number.code ≠ 0) :
    0 < number.wideUnits := by
  have positive : single.value 0 < single.value number.code :=
    single.value_strictMono (Nat.pos_of_ne_zero nonzero)
  have magnitude := (single.value_nonneg 0).trans_lt positive
  refine Nat.pos_of_ne_zero fun none => magnitude.ne ?_
  rw [value_code, ← wideUnits_div finite, none, Nat.cast_zero, zero_div]

theorem candidate_of_ne_zero (finite : number.isFinite = true) (nonzero : number.code ≠ 0) (count : Nat) :
    number.candidate count = Decimal.nearest count number.wideUnits double.unitsPerOne := by
  have wide : wideCode number.code ≠ 0 := fun zero => by
    have units := wideUnits_pos finite nonzero
    rw [wideUnits, zero] at units
    exact absurd units (by decide)
  rw [candidate, toDouble_of_finite finite, Double.nearestDecimal, if_neg wide]
  rfl

/-- A candidate has no more digits than were asked for. -/
theorem significantDigits_candidate (finite : number.isFinite = true) {count : Nat} (some : 0 < count) :
    (number.candidate count).significantDigits ≤ count := by
  refine Decimal.significantDigits_le some ?_
  by_cases zero : number.code = 0
  · rw [candidate_zero zero]
    exact Nat.zero_le _
  · rw [candidate_of_ne_zero finite zero]
    exact Decimal.digits_nearest_le count (wideUnits_pos finite zero) double.unitsPerOne_pos

/-- The candidate with nine digits reads back. -/
theorem readsBackAt_textDigits (finite : number.isFinite = true) : number.ReadsBackAt textDigits := by
  refine codeOf_of_close (code_lt_infinity finite) (Decimal.value_nonneg _) ?_
  rw [value_code]
  by_cases zero : number.code = 0
  · rw [candidate_zero zero, ← value_code, zero, single.value_zero, Decimal.value, Nat.cast_zero, zero_mul,
      sub_zero, abs_zero, zero_mul]
  · have error := Decimal.nearest_error 8 (wideUnits_pos finite zero) double.unitsPerOne_pos
    rw [wideUnits_div finite, ← candidate_of_ne_zero finite zero] at error
    change 2 * 10 ^ 8 * |(number.candidate textDigits).value - _| ≤ _ at error
    have nonneg := abs_nonneg ((number.candidate textDigits).value - number.magnitude)
    linarith

theorem isRounded_of_codeOf (unsigned : number.negative = false) (finite : number.isFinite = true)
    {magnitude : ℚ} (sign : 0 ≤ magnitude) (reads : codeOf magnitude = number.code) :
    IsRounded magnitude number := by
  rw [isRounded_iff sign, reads]
  obtain ⟨negative, code⟩ := number
  subst unsigned
  exact ⟨code_lt_infinity finite, rfl⟩

/-! ### The search among the candidates -/

/-- A 32-bit number has the value of a finite one with the same sign if it has the same code. -/
theorem sameValue_toDouble_iff (finite : number.isFinite = true) {code : Nat}
    (real : code ≤ single.infinity) :
    (Single.toDouble ⟨number.negative, code⟩).sameValue (Single.toDouble number) = true ↔
      code = number.code := by
  have bounded := wideCode_lt_infinity finite
  have signs : ∀ first second : Nat, first ≤ double.infinity → second ≤ double.infinity →
      ((⟨number.negative, first⟩ : Double).sameValue ⟨number.negative, second⟩ = true ↔
        first = second) := by
    intro first second least most
    simp [Floating.sameValue, Floating.isNaN, least, most]
  rw [toDouble_of_finite finite]
  rcases Nat.lt_or_eq_of_le real with less | rfl
  · have finiteOther : (⟨number.negative, code⟩ : Single).isFinite = true :=
      decide_eq_true less
    rw [toDouble_of_finite finiteOther,
      signs _ _ (wideCode_lt_infinity finiteOther).le bounded.le]
    exact ⟨wideCode_injective less (code_lt_infinity finite), congrArg wideCode⟩
  · have infinite : Single.toDouble ⟨number.negative, single.infinity⟩ =
        ⟨number.negative, double.infinity⟩ := by
      simp [Single.toDouble, Floating.isNaN, Floating.isInfinite]
    rw [infinite, signs _ _ (Nat.le_refl _) bounded.le]
    exact iff_of_false bounded.ne' (code_lt_infinity finite).ne'

/-- What is read for a candidate, if that fits in the 32-bit format. -/
theorem read_candidate {count : Nat} {read : Single}
    (fits : Double.toSingle? (Double.ofDecimal (Single.toDouble number).negative
      (Double.nearestDecimal (Single.toDouble number) count)) = some read) :
    read = ⟨number.negative, codeOf (number.candidate count).value⟩ := by
  unfold Double.toSingle? at fits
  dsimp only at fits
  split_ifs at fits
  rw [← Option.some.inj fits, Double.toSingle_ofDecimal, negative_toDouble]
  rfl

/-- The search among candidates of so many lengths ends at the first one that reads back, if there is one.
-/
theorem textDecimal_cases (finite : number.isFinite = true) {start length : Nat} {decimal : Decimal}
    (found : Double.textDecimal (Single.toDouble number) (List.range' start length) = .ok decimal) :
    (∃ count, start ≤ count ∧ count < start + length ∧ decimal = number.candidate count ∧
      number.ReadsBackAt count ∧ ∀ other, start ≤ other → other < count → ¬number.ReadsBackAt other) ∨
    ∀ count, start ≤ count → count < start + length → ¬number.ReadsBackAt count := by
  induction length generalizing start with
  | zero => exact .inr fun count least most => absurd most (Nat.not_lt.mpr least)
  | succ length previous =>
    rw [List.range'_succ] at found
    cases fits : Double.toSingle? (Double.ofDecimal (Single.toDouble number).negative
      (Double.nearestDecimal (Single.toDouble number) start)) with
    | none =>
      rw [Double.textDecimal_of_none fits] at found
      exact nomatch found
    | some read =>
      have real : codeOf (number.candidate start).value ≤ single.infinity :=
        Format.nearest_le_infinity _
      have back := sameValue_toDouble_iff finite real
      rw [Double.textDecimal_of_some fits, read_candidate fits] at found
      split_ifs at found with same
      · exact .inl ⟨start, Nat.le_refl _, by omega, (Except.ok.inj found).symm, back.mp same,
          fun other least less => absurd less (Nat.not_lt.mpr least)⟩
      · have here {count : Nat} (least : start ≤ count)
            (later : start + 1 ≤ count → ¬number.ReadsBackAt count) : ¬number.ReadsBackAt count := by
          rcases Nat.eq_or_lt_of_le least with rfl | less
          · exact mt back.mpr same
          · exact later less
        obtain ⟨count, least, most, same, reads, shorter⟩ | never := previous found
        · exact .inl ⟨count, by omega, by omega, same, reads,
            fun other first less => here first fun next => shorter other next less⟩
        · exact .inr fun count first last => here first fun next => never count next (by omega)

/-- The text of a float is that of its shortest candidate that reads back, and this has at most nine
digits. -/
theorem exists_candidate (finite : number.isFinite = true) {text : String}
    (printed : Single.text number = .ok text) : ∃ count, 0 < count ∧ count ≤ textDigits ∧
      text = (if number.negative then "-" else "") ++ (number.candidate count).positional ∧
      number.ReadsBackAt count ∧ ∀ other, 0 < other → other < count → ¬number.ReadsBackAt other := by
  rw [text_of_finite finite, ← toDouble_of_finite finite] at printed
  cases found : Double.textDecimal (Single.toDouble number) (List.range' 1 textDigits) with
  | error candidate => rw [found] at printed; exact nomatch printed
  | ok decimal =>
    rw [found] at printed
    obtain ⟨count, least, most, rfl, reads, shorter⟩ | never := textDecimal_cases finite found
    · exact ⟨count, least, by omega, (Except.ok.inj printed).symm, reads, shorter⟩
    · exact absurd (readsBackAt_textDigits finite) (never textDigits (by decide) (by decide))

/-- A text in which a number is laid out around a point is read as the float that it is rounded to. -/
theorem readsAs_of_isRounded {decimal : Decimal} (rounded : IsRounded decimal.value number) (limit : Int) :
    Expr.ReadsAs limit decimal.positional (.float number) := by
  have numeral := decimal.isNumeralText_positional
  obtain ⟨finite, rfl⟩ := (isRounded_iff decimal.value_nonneg).mp rounded
  have denotes : numeral? decimal.positional = some (.float ⟨false, codeOf decimal.value⟩) := by
    obtain ⟨whole, fraction, text, laid⟩ := decimal.laidOut_positional
    have pointless := Decimal.not_point_of_isDigit laid.isDigit
    rw [numeral?_of_one_point text (mt (List.mem_append_left _) pointless)
      (mt (List.mem_append_right _) pointless), ofNumeral?_eq, laid.value_eq, Decimal.value_trim,
      if_pos finite]
    rfl
  exact (numeral.delivers (by rw [String.ofList_toList, denotes])).readForm (.inl rfl)

end Candidates

/-- **Floats read back.** A finite float without a sign has no text just if it is larger than `3.4025e38`.
All others have a text with digits on either side of a point, of which at most nine are significant. It is
read as the same float, which is the number that it denotes, rounded to the 64-bit format and then to the
32-bit format. -/
theorem text_reads_back (number : Single) (unsigned : number.negative = false)
    (finite : number.isFinite = true) :
    ((∃ candidate, Single.text number = .error candidate) ↔ 3.4025 * 10 ^ 38 < number.magnitude) ∧
    (number.magnitude ≤ 3.4025 * 10 ^ 38 → ∃ text, Single.text number = .ok text ∧
      IsPointText text ∧ significantDigits text ≤ 9 ∧
      (∀ limit, Expr.ReadsAs limit text (.float number)) ∧
      IsRounded (numeralValue text.toList) number) := by
  refine ⟨text_eq_error_iff finite, fun small => ?_⟩
  cases printed : Single.text number with
  | error candidate => exact absurd ((text_eq_error_iff finite).mp ⟨candidate, printed⟩) (not_lt.mpr small)
  | ok text =>
    obtain ⟨count, some, most, rfl, reads, _⟩ := exists_candidate finite printed
    rw [unsigned, if_neg Bool.false_ne_true, String.empty_append]
    have rounded := isRounded_of_codeOf unsigned finite (Decimal.value_nonneg _) reads
    refine ⟨_, rfl, Decimal.isPointText_positional _, ?_, readsAs_of_isRounded rounded, ?_⟩
    · rw [Decimal.significantDigits_positional]
      exact (significantDigits_candidate finite some).trans most
    · rwa [Decimal.numeralValue_positional]

/-- The smallest positive float, for which one digit is enough, and the largest one that has a text. -/
theorem text_reads_back_extremes :
    let least : Single := ⟨false, 1⟩
    let largest : Single := ⟨false, 2139093444⟩
    Single.text least = .ok "0.000000000000000000000000000000000000000000001" ∧
      Expr.ReadsAs 0 "0.000000000000000000000000000000000000000000001" (.float least) ∧
      Single.text largest = .ok "340250000000000000000000000000000000000.0" ∧
      Expr.ReadsAs 0 "340250000000000000000000000000000000000.0" (.float largest) := by
  intro least largest
  have leastText : Single.text least = .ok "0.000000000000000000000000000000000000000000001" := by
    decide +kernel
  have largestText : Single.text largest = .ok "340250000000000000000000000000000000000.0" := by
    decide +kernel
  have small : least.magnitude ≤ 3.4025 * 10 ^ 38 := by decide +kernel
  have large : largest.magnitude ≤ 3.4025 * 10 ^ 38 := by decide +kernel
  obtain ⟨_, same, _, _, readLeast, _⟩ := (text_reads_back least rfl (by decide)).2 small
  obtain ⟨_, sameLargest, _, _, readLargest, _⟩ := (text_reads_back largest rfl (by decide)).2 large
  rw [leastText] at same
  rw [largestText] at sameLargest
  cases same
  cases sameLargest
  exact ⟨leastText, readLeast 0, largestText, readLargest 0⟩

end Single

end Lisplet
