import Mathlib.Algebra.GroupWithZero.Nat
import Mathlib.Data.List.Basic

/-!
# Unambiguous texts

Three ways of making a text that can be taken apart again: a part of known byte
length, a decimal length before a separator, and hexadecimal digits of a fixed
number.
-/

namespace Text

/-! ## Parts of known length -/

/-- Texts whose first parts have the same number of bytes agree part by part. -/
theorem append_inj {left right other rest : String} (same : left ++ right = other ++ rest)
    (sizes : left.utf8ByteSize = other.utf8ByteSize) : left = other ∧ right = rest := by
  have bytes : left.toByteArray ++ right.toByteArray = other.toByteArray ++ rest.toByteArray := by
    rw [← String.toByteArray_append, ← String.toByteArray_append, same]
  have isLeft : left = other := String.toByteArray_inj.mp (ByteArray.append_inj_left bytes sizes)
  subst isLeft
  exact ⟨rfl, (String.append_right_inj left).mp same⟩

/-- Texts whose last parts have the same number of bytes agree part by part. -/
theorem append_inj' {left right other rest : String} (same : left ++ right = other ++ rest)
    (sizes : right.utf8ByteSize = rest.utf8ByteSize) : left = other ∧ right = rest := by
  refine append_inj same ?_
  have total := congrArg String.utf8ByteSize same
  rw [String.utf8ByteSize_append, String.utf8ByteSize_append] at total
  omega

/-- Texts that begin differently are different. -/
theorem append_apart_start {start other : String} (left right : String)
    (apart : ¬start.toList <+: other.toList) (back : ¬other.toList <+: start.toList) :
    start ++ left ≠ other ++ right := by
  intro same
  have lists : start.toList ++ left.toList = other.toList ++ right.toList := by
    rw [← String.toList_append, ← String.toList_append, same]
  rcases List.prefix_or_prefix_of_prefix (List.prefix_append start.toList left.toList)
    (lists ▸ List.prefix_append other.toList right.toList) with within | within
  · exact apart within
  · exact back within

/-- Texts that end differently are different. -/
theorem append_apart_end {ending other : String} (left right : String)
    (apart : ¬ending.toList <:+ other.toList) (back : ¬other.toList <:+ ending.toList) :
    left ++ ending ≠ right ++ other := by
  intro same
  have lists : left.toList ++ ending.toList = right.toList ++ other.toList := by
    rw [← String.toList_append, ← String.toList_append, same]
  rcases List.suffix_or_suffix_of_suffix (List.suffix_append left.toList ending.toList)
    (lists ▸ List.suffix_append right.toList other.toList) with within | within
  · exact apart within
  · exact back within

/-- The bytes of a text are those of its characters. -/
theorem utf8ByteSize_ofList (chars : List Char) :
    (String.ofList chars).utf8ByteSize = (chars.map Char.utf8Size).sum := by
  induction chars with
  | nil => rfl
  | cons char rest inductionHypothesis =>
      rw [String.ofList_cons, String.utf8ByteSize_append, inductionHypothesis]
      simp

/-- A text of one-byte characters has as many bytes as characters. -/
theorem utf8ByteSize_of_ascii {chars : List Char} (ascii : ∀ char ∈ chars, char.utf8Size = 1) :
    (String.ofList chars).utf8ByteSize = chars.length := by
  rw [utf8ByteSize_ofList]
  induction chars with
  | nil => rfl
  | cons char rest inductionHypothesis =>
      rw [List.map_cons, List.sum_cons, ascii char List.mem_cons_self, List.length_cons,
        inductionHypothesis fun other member => ascii other (List.mem_cons_of_mem _ member)]
      exact Nat.add_comm _ _

/-! ## Separators -/

/-- A separator that does not occur before it determines both parts. -/
theorem separated_inj {α : Type} {separator : α} {left right other rest : List α}
    (absent : separator ∉ left) (absentOther : separator ∉ other)
    (same : left ++ separator :: right = other ++ separator :: rest) : left = other ∧ right = rest := by
  induction left generalizing other with
  | nil =>
      cases other with
      | nil => exact ⟨rfl, (List.cons.inj same).2⟩
      | cons first others =>
          refine absurd ?_ absentOther
          rw [(List.cons.inj same).1]
          exact List.mem_cons_self
  | cons first lefts inductionHypothesis =>
      cases other with
      | nil =>
          refine absurd ?_ absent
          rw [← (List.cons.inj same).1]
          exact List.mem_cons_self
      | cons second others =>
          obtain ⟨isFirst, sameRest⟩ := List.cons.inj same
          obtain ⟨isLeft, isRest⟩ := inductionHypothesis
            (fun member => absent (List.mem_cons_of_mem _ member))
            (fun member => absentOther (List.mem_cons_of_mem _ member)) sameRest
          exact ⟨by rw [isFirst, isLeft], isRest⟩

/-- Decimal digits are no colon. -/
theorem colon_not_mem_toDigits (number : Nat) : ':' ∉ Nat.toDigits 10 number := by
  intro member
  have isDigit := Nat.isDigit_of_mem_toDigits (by decide) (by decide) member
  exact absurd isDigit (by decide)

/-- A decimal number before a colon determines itself and the rest. -/
theorem numbered_inj {number other : Nat} {text rest : String}
    (same : toString number ++ ":" ++ text = toString other ++ ":" ++ rest) :
    number = other ∧ text = rest := by
  have lists := congrArg String.toList same
  simp only [String.toList_append, Nat.toString_eq_repr, Nat.toList_repr] at lists
  have separated : Nat.toDigits 10 number ++ ':' :: text.toList =
      Nat.toDigits 10 other ++ ':' :: rest.toList := by simpa using lists
  obtain ⟨digits, isText⟩ := separated_inj (colon_not_mem_toDigits number)
    (colon_not_mem_toDigits other) separated
  refine ⟨?_, String.toList_inj.mp isText⟩
  have values := congrArg (Nat.ofDigitChars 10 · 0) digits
  simpa only [Nat.ofDigitChars_ten_toDigits] using values

/-- The byte length of a text before it determines where it ends. -/
theorem framed_inj {name key other rest : String}
    (same : toString name.utf8ByteSize ++ ":" ++ name ++ key =
      toString other.utf8ByteSize ++ ":" ++ other ++ rest) : name = other ∧ key = rest := by
  have regrouped : toString name.utf8ByteSize ++ ":" ++ (name ++ key) =
      toString other.utf8ByteSize ++ ":" ++ (other ++ rest) := by
    rw [← String.append_assoc, ← String.append_assoc, same]
  obtain ⟨sizes, parts⟩ := numbered_inj regrouped
  exact append_inj parts sizes

/-! ## Hexadecimal digits -/

/-- The value of a hexadecimal digit. -/
def hexDigit (char : Char) : Nat :=
  if char.isDigit then char.toNat - '0'.toNat else char.toNat - 'a'.toNat + 10

/-- The value of hexadecimal digits. -/
def hexValue (digits : List Char) : Nat :=
  digits.foldl (fun value digit => 16 * value + hexDigit digit) 0

theorem hexDigit_digitChar {digit : Nat} (small : digit < 16) :
    hexDigit (Nat.digitChar digit) = digit := by
  have all : ∀ digit : Fin 16, hexDigit (Nat.digitChar digit) = digit := by decide
  exact all ⟨digit, small⟩

/-- The digits of a number have its value. -/
theorem hexValue_toDigits (number : Nat) : hexValue (Nat.toDigits 16 number) = number := by
  induction number using Nat.strongRecOn with
  | ind number inductionHypothesis =>
      rw [Nat.toDigits_eq_if (by decide)]
      split
      · next small => simp [hexValue, hexDigit_digitChar small]
      · next large =>
          have shorter := inductionHypothesis (number / 16) (by omega)
          unfold hexValue at shorter ⊢
          rw [List.foldl_append, shorter]
          simp only [List.foldl_cons, List.foldl_nil]
          rw [hexDigit_digitChar (Nat.mod_lt _ (by decide))]
          omega

theorem hexDigits_ascii (number : Nat) :
    ∀ char ∈ Nat.toDigits 16 number, char.utf8Size = 1 ∧ char ≠ '-' := by
  have all : ∀ digit : Fin 16, (Nat.digitChar digit).utf8Size = 1 ∧ Nat.digitChar digit ≠ '-' := by
    decide
  induction number using Nat.strongRecOn with
  | ind number inductionHypothesis =>
      intro char member
      rw [Nat.toDigits_eq_if (by decide)] at member
      split at member
      · next small =>
          rw [List.mem_singleton.mp member]
          exact all ⟨number, small⟩
      · next large =>
          rcases List.mem_append.mp member with earlier | isLast
          · exact inductionHypothesis (number / 16) (by omega) char earlier
          · rw [List.mem_singleton.mp isLast]
            exact all ⟨number % 16, Nat.mod_lt _ (by decide)⟩

/-- Leading zeros change no value. -/
theorem hexValue_padded (zeros : Nat) (digits : List Char) :
    hexValue (List.replicate zeros '0' ++ digits) = hexValue digits := by
  induction zeros with
  | zero => rfl
  | succ zeros inductionHypothesis =>
      rw [List.replicate_succ, List.cons_append, ← inductionHypothesis]
      rfl

end Text
