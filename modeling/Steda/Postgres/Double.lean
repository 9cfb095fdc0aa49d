import Mathlib.Data.Int.Log
import Mathlib.Data.Nat.Prime.Basic
import Mathlib.Data.Nat.Cast.Field
import Mathlib.Tactic.Linarith
import Mathlib.Tactic.Positivity
import Mathlib.Tactic.FieldSimp
import Steda.Postgres.Numeric

/-!
# Double precision

A double has at most 53 binary digits, the last of them worth at least
`2 ^ (-1074)`.  A rational is rounded to the nearest double, ties to even, and
overflows when the rounded value is larger than every double.  Rounding is
monotone and fixes the doubles.
-/

namespace Postgres

/-! ## Rounding to integers -/

theorem roundHalfEven_intCast (value : Int) : roundHalfEven value = value := by
  unfold roundHalfEven
  simp

theorem floor_le_roundHalfEven (value : Rat) : ⌊value⌋ ≤ roundHalfEven value := by
  unfold roundHalfEven
  dsimp only
  split_ifs <;> omega

theorem roundHalfEven_le_floor_succ (value : Rat) : roundHalfEven value ≤ ⌊value⌋ + 1 := by
  unfold roundHalfEven
  dsimp only
  split_ifs <;> omega

theorem roundHalfEven_mono {first second : Rat} (ordered : first ≤ second) :
    roundHalfEven first ≤ roundHalfEven second := by
  rcases (Int.floor_mono ordered).lt_or_eq with below | sameFloor
  · exact (roundHalfEven_le_floor_succ first).trans
      (le_trans (by omega) (floor_le_roundHalfEven second))
  · unfold roundHalfEven
    dsimp only
    rw [← sameFloor]
    split_ifs <;> first | omega | linarith

/-- Rounding does not pass an integer. -/
theorem roundHalfEven_le {value : Rat} {bound : Int} (below : value ≤ bound) :
    roundHalfEven value ≤ bound :=
  (roundHalfEven_mono below).trans_eq (roundHalfEven_intCast bound)

theorem le_roundHalfEven {value : Rat} {bound : Int} (above : (bound : Rat) ≤ value) :
    bound ≤ roundHalfEven value :=
  (roundHalfEven_intCast bound).symm.trans_le (roundHalfEven_mono above)

/-- At most one half is rounded to zero. -/
theorem roundHalfEven_of_small {value : Rat} (small : |value| ≤ 1 / 2) :
    roundHalfEven value = 0 := by
  obtain ⟨above, below⟩ := abs_le.mp small
  rcases le_or_gt 0 value with nonneg | negative
  · have isZero : ⌊value⌋ = 0 := Int.floor_eq_zero_iff.mpr ⟨nonneg, by linarith⟩
    unfold roundHalfEven
    simp only [isZero]
    norm_num
    exact fun _ => below
  · have isMinusOne : ⌊value⌋ = -1 :=
      Int.floor_eq_iff.mpr ⟨by push_cast; linarith, by simpa using negative⟩
    unfold roundHalfEven
    simp only [isMinusOne]
    norm_num
    linarith

/-! ## Rounding to doubles -/

/-- The exponent of the last binary digit of the doubles around a rational. -/
def lastPlace (value : Rat) : Int := max (Int.log 2 |value| - 52) (-1074)

/-- The nearest rational with the last place of the value, ties to even. -/
def roundToDouble (value : Rat) : Rat :=
  roundHalfEven (value / 2 ^ lastPlace value) * 2 ^ lastPlace value

/-- A rational with at most 53 binary digits from `2 ^ (-1074)` on. -/
def IsDouble (value : Rat) : Prop :=
  ∃ significand exponent : Int,
    |significand| < 2 ^ 53 ∧ -1074 ≤ exponent ∧ value = significand * 2 ^ exponent

theorem two_zpow_pos (exponent : Int) : (0 : Rat) < 2 ^ exponent :=
  zpow_pos two_pos exponent

theorem two_zpow_add (first second : Int) :
    (2 : Rat) ^ (first + second) = 2 ^ first * 2 ^ second :=
  zpow_add₀ two_ne_zero first second

theorem two_zpow_le {first second : Int} (ordered : first ≤ second) :
    (2 : Rat) ^ first ≤ 2 ^ second :=
  zpow_le_zpow_right₀ one_le_two ordered

/-- A whole power of two is an integer. -/
theorem two_zpow_eq_intCast {exponent : Int} (nonneg : 0 ≤ exponent) :
    (2 : Rat) ^ exponent = ((2 ^ exponent.toNat : Int) : Rat) := by
  obtain ⟨power, rfl⟩ := Int.eq_ofNat_of_zero_le nonneg
  push_cast
  exact zpow_natCast 2 power

/-- A power of two is a multiple of every smaller one. -/
theorem two_zpow_eq_multiple {place exponent : Int} (fits : place ≤ exponent) :
    (2 : Rat) ^ exponent = ((2 ^ (exponent - place).toNat : Int) : Rat) * 2 ^ place := by
  rw [← two_zpow_eq_intCast (by omega), ← two_zpow_add, Int.sub_add_cancel]

/-- The significand of the rounded value has 53 binary digits. -/
theorem abs_lt_of_lastPlace (value : Rat) : |value| < 2 ^ (53 : Nat) * 2 ^ lastPlace value := by
  have below : |value| < 2 ^ (Int.log 2 |value| + 1) := by
    have bound := Int.lt_zpow_succ_log_self (b := 2) (by decide) |value|
    exact_mod_cast bound
  have fits : Int.log 2 |value| + 1 ≤ (53 : Nat) + lastPlace value := by
    unfold lastPlace
    omega
  rw [← zpow_natCast, ← two_zpow_add]
  exact below.trans_le (two_zpow_le fits)

theorem isDouble_of_le {significand exponent : Int} (digits : |significand| ≤ 2 ^ 53)
    (large : -1074 ≤ exponent) : IsDouble (significand * 2 ^ exponent) := by
  rcases digits.lt_or_eq with fewer | all
  · exact ⟨significand, exponent, fewer, large, rfl⟩
  · have half : significand = significand / 2 * 2 := by
      rcases abs_eq (by positivity) |>.mp all with isPower | isPower <;> rw [isPower] <;> decide
    refine ⟨significand / 2, exponent + 1, ?_, by omega, ?_⟩
    · rw [half, abs_mul] at all
      norm_num at all
      omega
    · rw [two_zpow_add, zpow_one, mul_comm ((2 : Rat) ^ exponent), ← mul_assoc]
      congr 1
      exact_mod_cast half

/-- The rounded value is a double. -/
theorem isDouble_roundToDouble (value : Rat) : IsDouble (roundToDouble value) := by
  have positive := two_zpow_pos (lastPlace value)
  have digits : |value / 2 ^ lastPlace value| ≤ 2 ^ (53 : Nat) := by
    rw [abs_div, abs_of_pos positive, div_le_iff₀ positive]
    exact (abs_lt_of_lastPlace value).le
  obtain ⟨above, below⟩ := abs_le.mp digits
  refine isDouble_of_le (abs_le.mpr ⟨?_, ?_⟩) (le_max_right _ _)
  · exact le_roundHalfEven (by exact_mod_cast above)
  · exact roundHalfEven_le (by exact_mod_cast below)

/-- Rounding fixes every multiple of the last place. -/
theorem roundToDouble_of_multiple {value : Rat} {significand exponent : Int}
    (isMultiple : value = significand * 2 ^ exponent) (fits : lastPlace value ≤ exponent) :
    roundToDouble value = value := by
  have positive := two_zpow_pos (lastPlace value)
  have quotient : value / 2 ^ lastPlace value =
      ((significand * 2 ^ (exponent - lastPlace value).toNat : Int) : Rat) := by
    rw [div_eq_iff positive.ne', Int.cast_mul, mul_assoc, ← two_zpow_eq_multiple fits]
    exact isMultiple
  unfold roundToDouble
  rw [quotient, roundHalfEven_intCast, ← quotient, div_mul_cancel₀ _ positive.ne']

/-- Rounding fixes the doubles. -/
theorem roundToDouble_of_isDouble {value : Rat} (isDouble : IsDouble value) :
    roundToDouble value = value := by
  obtain ⟨significand, exponent, digits, large, isValue⟩ := isDouble
  by_cases isZero : value = 0
  · rw [isZero]
    simp [roundToDouble, roundHalfEven]
  · refine roundToDouble_of_multiple isValue (max_le ?_ large)
    have bound : |value| < (2 : Nat) ^ (53 + exponent) := by
      rw [isValue, abs_mul, abs_of_pos (two_zpow_pos exponent), Nat.cast_ofNat, two_zpow_add]
      refine mul_lt_mul_of_pos_right ?_ (two_zpow_pos exponent)
      exact_mod_cast digits
    have log := (Int.lt_zpow_iff_log_lt (by decide) (abs_pos.mpr isZero)).mp bound
    omega

theorem roundToDouble_nonneg {value : Rat} (nonneg : 0 ≤ value) : 0 ≤ roundToDouble value := by
  have positive := two_zpow_pos (lastPlace value)
  have quotient : ((0 : Int) : Rat) ≤ value / 2 ^ lastPlace value := by
    simpa using div_nonneg nonneg positive.le
  exact mul_nonneg (by exact_mod_cast le_roundHalfEven quotient) positive.le

theorem roundToDouble_nonpos {value : Rat} (nonpos : value ≤ 0) : roundToDouble value ≤ 0 := by
  have positive := two_zpow_pos (lastPlace value)
  have quotient : value / 2 ^ lastPlace value ≤ ((0 : Int) : Rat) := by
    simpa using div_nonpos_of_nonpos_of_nonneg nonpos positive.le
  exact mul_nonpos_of_nonpos_of_nonneg (by exact_mod_cast roundHalfEven_le quotient) positive.le

/-- A multiple of the last place is not passed. -/
theorem roundToDouble_le_two_zpow {value : Rat} {exponent : Int} (below : value ≤ 2 ^ exponent)
    (fits : lastPlace value ≤ exponent) : roundToDouble value ≤ 2 ^ exponent := by
  have positive := two_zpow_pos (lastPlace value)
  rw [two_zpow_eq_multiple fits] at below ⊢
  refine mul_le_mul_of_nonneg_right ?_ positive.le
  exact_mod_cast roundHalfEven_le ((div_le_iff₀ positive).mpr below)

theorem two_zpow_le_roundToDouble {value : Rat} {exponent : Int} (above : 2 ^ exponent ≤ value)
    (fits : lastPlace value ≤ exponent) : 2 ^ exponent ≤ roundToDouble value := by
  have positive := two_zpow_pos (lastPlace value)
  rw [two_zpow_eq_multiple fits] at above ⊢
  refine mul_le_mul_of_nonneg_right ?_ positive.le
  exact_mod_cast le_roundHalfEven ((le_div_iff₀ positive).mpr above)

/-- Rounding is monotone.  Values with different last places are separated by a
power of two. -/
theorem roundToDouble_mono {first second : Rat} (nonneg : 0 ≤ first) (ordered : first ≤ second) :
    roundToDouble first ≤ roundToDouble second := by
  rcases nonneg.lt_or_eq with positive | isZero
  · have logs : Int.log 2 |first| ≤ Int.log 2 |second| :=
      Int.log_mono_right (abs_pos.mpr positive.ne')
        (abs_le_abs_of_nonneg nonneg ordered)
    rcases eq_or_ne (lastPlace first) (lastPlace second) with samePlace | otherPlace
    · unfold roundToDouble
      rw [samePlace]
      refine mul_le_mul_of_nonneg_right ?_ (two_zpow_pos _).le
      exact_mod_cast roundHalfEven_mono (div_le_div_of_nonneg_right ordered (two_zpow_pos _).le)
    · have secondPositive := positive.trans_le ordered
      have separated : Int.log 2 |first| + 1 ≤ Int.log 2 |second| ∧
          lastPlace second = Int.log 2 |second| - 52 ∧
          lastPlace first < lastPlace second := by
        unfold lastPlace at otherPlace ⊢
        omega
      have firstBelow : first ≤ 2 ^ Int.log 2 |second| := by
        have bound := Int.lt_zpow_succ_log_self (b := 2) (by decide) |first|
        rw [abs_of_pos positive] at bound separated
        rw [Nat.cast_ofNat] at bound
        exact bound.le.trans (two_zpow_le separated.1)
      have secondAbove : 2 ^ Int.log 2 |second| ≤ second := by
        have bound := Int.zpow_log_le_self (b := 2) (by decide) secondPositive
        rw [abs_of_pos secondPositive]
        exact_mod_cast bound
      exact (roundToDouble_le_two_zpow firstBelow (by omega)).trans
        (two_zpow_le_roundToDouble secondAbove (by omega))
  · rw [← isZero]
    exact (roundToDouble_nonpos le_rfl).trans (roundToDouble_nonneg (nonneg.trans ordered))

/-- At most half the smallest positive double is rounded to zero. -/
theorem roundToDouble_of_small {value : Rat} (small : |value| ≤ minDouble) :
    roundToDouble value = 0 := by
  rcases eq_or_ne value 0 with isZero | nonzero
  · rw [isZero]
    exact roundToDouble_of_isDouble ⟨0, 0, by decide, by decide, by simp⟩
  · have isMin : minDouble = 2 ^ (-1075 : Int) := by
      unfold minDouble
      rw [one_div, zpow_neg]
      rfl
    have halved : (2 : Rat) ^ (-1075 : Int) = 1 / 2 * 2 ^ (-1074 : Int) := by
      rw [show (-1075 : Int) = -1 + -1074 by decide, two_zpow_add, zpow_neg_one, one_div]
    rw [isMin] at small
    have place : lastPlace value = -1074 := by
      have bound : |value| < (2 : Nat) ^ (-1074 : Int) := by
        rw [Nat.cast_ofNat]
        refine small.trans_lt ?_
        rw [halved]
        exact mul_lt_of_lt_one_left (two_zpow_pos _) (by norm_num)
      have log := (Int.lt_zpow_iff_log_lt (by decide) (abs_pos.mpr nonzero)).mp bound
      unfold lastPlace
      omega
    have half : |value / 2 ^ lastPlace value| ≤ 1 / 2 := by
      rw [place, abs_div, abs_of_pos (two_zpow_pos _), div_le_iff₀ (two_zpow_pos _), ← halved]
      exact small
    unfold roundToDouble
    rw [roundHalfEven_of_small half, Int.cast_zero, zero_mul]

/-- A natural number of at most 53 binary digits is a double. -/
theorem isDouble_natCast {value : Nat} (digits : value < 2 ^ 53) : IsDouble (value : Rat) := by
  refine ⟨value, 0, ?_, by decide, by simp⟩
  rw [abs_of_nonneg (Int.natCast_nonneg value)]
  exact_mod_cast digits

/-! ## The type of doubles -/

/-- A finite double.  The sign of a zero is not kept. -/
structure Double where
  value : Rat
  isDouble : IsDouble value
  finite : |value| ≤ maxDouble

/-- A double, or what a computation yields instead of one. -/
inductive Binary64
  | nan
  | infinite (negative : Bool)
  | finite (double : Double)

namespace Binary64

/-- A rational as a double. -/
def nearest (value : Rat) : Binary64 :=
  if finite : |roundToDouble value| ≤ maxDouble then
    .finite ⟨roundToDouble value, isDouble_roundToDouble value, finite⟩
  else .infinite (decide (value < 0))

/-- `is_finite`. -/
def isFinite : Binary64 → Bool
  | .finite _ => true
  | _ => false

/-- Comparison with a number.  Nothing is larger or smaller than NaN. -/
def gt : Binary64 → Rat → Bool
  | .nan, _ => false
  | .infinite negative, _ => !negative
  | .finite double, bound => bound < double.value

/-- Comparison with a number. -/
def le : Binary64 → Rat → Bool
  | .nan, _ => false
  | .infinite negative, _ => negative
  | .finite double, bound => double.value ≤ bound

theorem nearest_finite {value : Rat} {double : Double} (rounded : nearest value = .finite double) :
    roundToDouble value = double.value := by
  unfold nearest at rounded
  split at rounded
  · cases rounded
    rfl
  · cases rounded

theorem nearest_of_finite {value : Rat} (finite : |roundToDouble value| ≤ maxDouble) :
    nearest value = .finite ⟨roundToDouble value, isDouble_roundToDouble value, finite⟩ :=
  dif_pos finite

end Binary64

/-! ## Printed doubles -/

/-- Doubles are printed as decimals that are read back and stay within the
largest double.  Whole numbers are printed as they are. -/
structure Prints (print : Double → Numeric) : Prop where
  reads : ∀ double : Double, Binary64.nearest (print double).value = .finite double
  whole : ∀ (double : Double) (number : Nat), double.value = number → number < 2 ^ 53 →
    (print double).value = number
  within : ∀ double : Double, |(print double).value| ≤ maxDouble

namespace Prints

variable {print : Double → Numeric} {double : Double}

theorem rounds (prints : Prints print) (double : Double) :
    roundToDouble (print double).value = double.value :=
  Binary64.nearest_finite (prints.reads double)

/-- A nonzero decimal is large enough to be read. -/
theorem large (prints : Prints print) (nonzero : (print double).value ≠ 0) :
    minDouble < |(print double).value| := by
  by_contra small
  have isZero : double.value = 0 := by
    rw [← prints.rounds double]
    exact roundToDouble_of_small (not_lt.mp small)
  refine nonzero ?_
  exact_mod_cast prints.whole double 0 (by exact_mod_cast isZero) (by positivity)

theorem pos (prints : Prints print) (positive : 0 < double.value) :
    0 < (print double).value := by
  by_contra nonpos
  have rounded := roundToDouble_nonpos (not_lt.mp nonpos)
  rw [prints.rounds double] at rounded
  exact absurd positive (not_lt.mpr rounded)

theorem nonneg (prints : Prints print) (nonneg : 0 ≤ double.value) :
    0 ≤ (print double).value := by
  rcases nonneg.lt_or_eq with positive | isZero
  · exact (prints.pos positive).le
  · have printed := prints.whole double 0 (by exact_mod_cast isZero.symm) (by positivity)
    exact_mod_cast printed.ge

/-- A double that does not exceed a whole number is not printed beyond it. -/
theorem le_natCast (prints : Prints print) {bound : Nat} (digits : bound < 2 ^ 53)
    (below : double.value ≤ bound) : (print double).value ≤ bound := by
  rcases below.lt_or_eq with less | same
  · by_contra beyond
    have rounded := roundToDouble_mono (Nat.cast_nonneg bound) (not_le.mp beyond).le
    rw [prints.rounds double, roundToDouble_of_isDouble (isDouble_natCast digits)] at rounded
    exact absurd less (not_lt.mpr rounded)
  · exact (prints.whole double bound same digits).le

end Prints

/-- A double with all its decimal digits, at least one of them after the point. -/
def printExactly (double : Double) : Numeric :=
  let scale := max (Nat.log2 double.value.den) 1
  ⟨double.value.num * (10 ^ scale / double.value.den : Nat), scale⟩

/-- The denominator of a double is a power of two. -/
theorem IsDouble.den {value : Rat} (isDouble : IsDouble value) :
    ∃ power, value.den = 2 ^ power := by
  obtain ⟨significand, exponent, _, large, isValue⟩ := isDouble
  have divides : value.den ∣ 2 ^ 1074 := by
    have isFraction : value =
        ((significand * 2 ^ (exponent + 1074).toNat : Int) : Rat) / ((2 ^ 1074 : Int) : Rat) := by
      rw [eq_div_iff (by positivity), isValue, Int.cast_mul, ← two_zpow_eq_intCast (by omega),
        two_zpow_add, mul_assoc]
      norm_cast
    have dvd := Rat.den_dvd (significand * 2 ^ (exponent + 1074).toNat) (2 ^ 1074)
    rw [Rat.divInt_eq_div, ← isFraction] at dvd
    exact_mod_cast dvd
  obtain ⟨power, _, isPower⟩ := (Nat.dvd_prime_pow Nat.prime_two).mp divides
  exact ⟨power, isPower⟩

theorem printExactly_value (double : Double) : (printExactly double).value = double.value := by
  obtain ⟨power, isPower⟩ := double.isDouble.den
  have divides : double.value.den ∣ 10 ^ max (Nat.log2 double.value.den) 1 := by
    rw [isPower, Nat.log2_two_pow]
    exact (pow_dvd_pow_of_dvd (by decide) power).trans (pow_dvd_pow 10 (le_max_left _ _))
  have nonzero : ((10 : Rat) ^ max (Nat.log2 double.value.den) 1) ≠ 0 := by positivity
  unfold printExactly Numeric.value
  dsimp only
  rw [Int.cast_mul, Int.cast_natCast,
    Nat.cast_div divides (by exact_mod_cast double.value.den_ne_zero)]
  push_cast
  rw [mul_div_assoc', div_div, mul_comm (double.value.den : Rat), ← div_div,
    mul_div_cancel_right₀ _ nonzero]
  exact Rat.num_div_den double.value

theorem prints_printExactly : Prints printExactly where
  reads := by
    intro double
    have rounded : roundToDouble (printExactly double).value = double.value := by
      rw [printExactly_value, roundToDouble_of_isDouble double.isDouble]
    rw [Binary64.nearest_of_finite (rounded ▸ double.finite)]
    congr
  whole := fun double number isNumber _ => by rw [printExactly_value, isNumber]
  within := fun double => by
    rw [printExactly_value]
    exact double.finite

end Postgres
