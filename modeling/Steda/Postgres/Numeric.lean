import Mathlib.Algebra.Order.Field.Rat
import Mathlib.Algebra.Order.Floor.Defs
import Mathlib.Data.Rat.Floor

/-!
# Decimal numbers, their text, and the casts between them

A `Numeric` keeps the scale it was written with: `1` and `1.0` are equal
numbers with different texts.  The cast of a text to a 64-bit integer accepts
an optionally signed integer literal and nothing else, so it reads back exactly
the numbers of scale zero.  Double precision is modelled by rationals with the
range errors of overflow and of underflow to zero.
-/

namespace Postgres

/-- A decimal number `mantissa / 10 ^ scale`. -/
structure Numeric where
  mantissa : Int
  scale : Nat
  deriving DecidableEq

namespace Numeric

/-- The integer as a number of scale zero. -/
def ofInt (value : Int) : Numeric := ⟨value, 0⟩

/-- The value of a decimal number. -/
def value (number : Numeric) : Rat := number.mantissa / (10 : Rat) ^ number.scale

/-- Truncation towards zero. -/
def trunc (number : Numeric) : Int := number.mantissa.tdiv (10 ^ number.scale)

/-- The number equals its truncation. -/
def isWhole (number : Numeric) : Bool :=
  number.mantissa == number.trunc * 10 ^ number.scale

/-- Comparison with an integer. -/
def ltInt (number : Numeric) (bound : Int) : Bool :=
  number.mantissa < bound * 10 ^ number.scale

/-- Comparison with an integer. -/
def gtInt (number : Numeric) (bound : Int) : Bool :=
  bound * 10 ^ number.scale < number.mantissa

/-- Equality of values, whatever the scales. -/
def eqv (left right : Numeric) : Bool :=
  left.mantissa * 10 ^ right.scale == right.mantissa * 10 ^ left.scale

/-- Equal numbers have the same value. -/
theorem eqv_iff {left right : Numeric} : left.eqv right = true ↔ left.value = right.value := by
  have nonzero : ∀ scale : Nat, (10 : Rat) ^ scale ≠ 0 := fun scale => by positivity
  rw [eqv, value, value, div_eq_div_iff (nonzero _) (nonzero _), beq_iff_eq]
  exact_mod_cast Iff.rfl

/-- A whole number is its truncation. -/
theorem value_of_isWhole {number : Numeric} (whole : number.isWhole = true) :
    number.value = number.trunc := by
  have mantissa : number.mantissa = number.trunc * 10 ^ number.scale := by
    simpa [isWhole] using whole
  have nonzero : (10 : Rat) ^ number.scale ≠ 0 := by positivity
  rw [value, div_eq_iff nonzero]
  exact_mod_cast mantissa

/-- The digits after the decimal point. -/
def fractionDigits (number : Numeric) : List Char :=
  let digits := Nat.toDigits 10 (number.mantissa.natAbs % 10 ^ number.scale)
  List.replicate (number.scale - digits.length) '0' ++ digits

/-- Text of a number, with exactly `scale` digits after the decimal point. -/
def toText (number : Numeric) : String :=
  String.ofList <|
    (if number.mantissa < 0 then ['-'] else []) ++
      Nat.toDigits 10 (number.mantissa.natAbs / 10 ^ number.scale) ++
      (if number.scale = 0 then [] else '.' :: number.fractionDigits)

end Numeric

/-! ## Casting text to a 64-bit integer -/

/-- Why a text is not a 64-bit integer. -/
inductive IntegerError
  | invalidSyntax
  | outOfRange
  deriving DecidableEq

/-- Largest 64-bit signed integer. -/
def maxBigint : Int := 9223372036854775807

/-- Largest 32-bit signed integer. -/
def maxInteger : Nat := 2147483647

/-- Read a nonempty string of decimal digits. -/
def readDigits (digits : List Char) : Option Nat :=
  if digits.isEmpty then none
  else if digits.all Char.isDigit then some (Nat.ofDigitChars 10 digits 0)
  else none

/-- Read an optionally signed integer literal. -/
def readSigned : List Char → Option Int
  | '-' :: digits => (readDigits digits).map fun magnitude => -(magnitude : Int)
  | '+' :: digits => (readDigits digits).map fun magnitude => (magnitude : Int)
  | digits => (readDigits digits).map fun magnitude => (magnitude : Int)

/-- Cast of a text to a 64-bit integer. -/
def textToBigint (text : String) : Except IntegerError Int :=
  match readSigned text.toList with
  | none => .error .invalidSyntax
  | some value =>
      if value < -maxBigint - 1 ∨ maxBigint < value then .error .outOfRange else .ok value

/-- Digits read back the natural number they were printed from. -/
theorem readDigits_toDigits (magnitude : Nat) :
    readDigits (Nat.toDigits 10 magnitude) = some magnitude := by
  have nonempty : (Nat.toDigits 10 magnitude).isEmpty = false := by
    simp [Nat.toDigits_ne_nil]
  have digits : (Nat.toDigits 10 magnitude).all Char.isDigit = true := by
    rw [List.all_eq_true]
    intro digit member
    exact Nat.isDigit_of_mem_toDigits (by decide) (by decide) member
  simp [readDigits, nonempty, digits, Nat.ofDigitChars_ten_toDigits]

/-- A text with a decimal point is no string of digits. -/
theorem readDigits_append_point (leading fraction : List Char) :
    readDigits (leading ++ '.' :: fraction) = none := by
  have notDigits : (leading ++ '.' :: fraction).all Char.isDigit = false := by
    rw [List.all_eq_false]
    exact ⟨'.', by simp, by decide⟩
  simp [readDigits, notDigits]

/-- The first character of printed digits is neither of the signs. -/
theorem toDigits_head_ne_sign (magnitude : Nat) (rest : List Char) :
    readSigned (Nat.toDigits 10 magnitude ++ rest) =
      (readDigits (Nat.toDigits 10 magnitude ++ rest)).map fun value => (value : Int) := by
  rcases printed : Nat.toDigits 10 magnitude with _ | ⟨first, others⟩
  · exact absurd printed Nat.toDigits_ne_nil
  · have firstDigit : first.isDigit := by
      apply Nat.isDigit_of_mem_toDigits (b := 10) (n := magnitude) (by decide) (by decide)
      simp [printed]
    rw [List.cons_append]
    unfold readSigned
    split
    · next equal =>
        cases equal
        exact absurd firstDigit (by decide)
    · next equal =>
        cases equal
        exact absurd firstDigit (by decide)
    · rfl

/-- A number of scale zero is read back from its text. -/
theorem readSigned_toText_of_scale_zero (mantissa : Int) :
    readSigned (Numeric.toText ⟨mantissa, 0⟩).toList = some mantissa := by
  by_cases negative : mantissa < 0
  · have magnitude : -|mantissa| = mantissa := by rw [abs_of_neg negative, neg_neg]
    simp [Numeric.toText, negative, readSigned, readDigits_toDigits, magnitude]
  · have magnitude : (mantissa.natAbs : Int) = mantissa := by omega
    have read := toDigits_head_ne_sign mantissa.natAbs []
    rw [List.append_nil, readDigits_toDigits] at read
    simp [Numeric.toText, negative, read, magnitude]

/-- A number written with a fraction, even an all-zero one, is no integer
literal. -/
theorem readSigned_toText_of_scale_pos {number : Numeric} (fractional : number.scale ≠ 0) :
    readSigned number.toText.toList = none := by
  by_cases negative : number.mantissa < 0
  · simp [Numeric.toText, negative, fractional, readSigned, readDigits_append_point]
  · have read := toDigits_head_ne_sign (number.mantissa.natAbs / 10 ^ number.scale)
      ('.' :: number.fractionDigits)
    rw [readDigits_append_point] at read
    simp [Numeric.toText, negative, fractional, read]

/-- The cast of a printed number succeeds exactly for the integer literals in
range. -/
theorem textToBigint_toText (number : Numeric) :
    textToBigint number.toText =
      if number.scale ≠ 0 then .error .invalidSyntax
      else if number.mantissa < -maxBigint - 1 ∨ maxBigint < number.mantissa then
        .error .outOfRange
      else .ok number.mantissa := by
  by_cases fractional : number.scale = 0
  · obtain ⟨mantissa, scale⟩ := number
    change scale = 0 at fractional
    subst fractional
    simp [textToBigint, readSigned_toText_of_scale_zero]
  · simp [textToBigint, readSigned_toText_of_scale_pos fractional, fractional]

/-! ## Double precision as rationals with range errors -/

/-- Largest finite double. -/
def maxDouble : Rat := (2 ^ 53 - 1) * 2 ^ 971

/-- Half the smallest positive double: nonzero results up to it round to zero. -/
def minDouble : Rat := 1 / 2 ^ 1075

/-- Result of a double computation: a range error on overflow and when a
nonzero result would underflow to zero. -/
def toDouble (result : Rat) : Option Rat :=
  if maxDouble < |result| then none
  else if result ≠ 0 ∧ |result| ≤ minDouble then none
  else some result

/-- Rounding to the nearest integer, ties to even. -/
def roundHalfEven (value : Rat) : Int :=
  let below := ⌊value⌋
  if value - below < 1 / 2 then below
  else if 1 / 2 < value - below then below + 1
  else if below % 2 = 0 then below
  else below + 1

end Postgres
