import Steda.Postgres.Json

/-!
# Records in JSON

How a derived deserializer reads a record with named fields from a JSON value:
from an object by the names of the fields, in any order and among others, or
from an array by their positions.
-/

namespace Serde

open Postgres

/-- How errors print values: a text as `{:?}` shows it, and the digits of a
floating point number. -/
structure Printer where
  debug : String → String
  float : Numeric → String

/-- Printing of texts without control characters, and of short decimals. -/
def Printer.plain : Printer where
  debug := Json.quote
  float := Numeric.toText

/-- What an error calls a value.  Integers fit 64 bits, and all other numbers are
floating point ones. -/
def unexpected (printer : Printer) : Json → String
  | .null => "null"
  | .bool value => s!"boolean `{value}`"
  | .number value =>
      if value.scale = 0 ∧ -2 ^ 63 ≤ value.mantissa ∧ value.mantissa < 2 ^ 64 then
        s!"integer `{value.mantissa}`"
      else s!"floating point `{printer.float value}`"
  | .string value => s!"string {printer.debug value}"
  | .array _ => "sequence"
  | .object _ => "map"

/-- The error about a value of another type. -/
def invalidType (printer : Printer) (json : Json) (expected : String) : String :=
  s!"invalid type: {unexpected printer json}, expected {expected}"

/-- A text. -/
def readString (printer : Printer) : Json → Except String String
  | .string text => .ok text
  | other => .error (invalidType printer other "a string")

variable {α : Type} {printer : Printer}

/-- The value of a field, if the object has the field. -/
def readField (fields : List (String × Json)) (name : String)
    (read : Json → Except String α) : Except String (Option α) :=
  match fields.lookup name with
  | none => .ok none
  | some json => (read json).map some

/-- The value of a field that has been read, or the one that stands for a
missing field. -/
def required (name : String) (absent value : Option α) : Except String α :=
  match value, absent with
  | some value, _ | none, some value => .ok value
  | none, none => .error s!"missing field `{name}`"

/-- The error about an array that is too short for a record. -/
def tooShort (length : Nat) (record : String) (size : Nat) : String :=
  s!"invalid length {length}, expected struct {record} with {size} elements"

/-- The error about an array that is too long for a record. -/
def tooLong (length : Nat) : String :=
  s!"invalid length {length}, expected fewer elements in array"

@[simp] theorem readString_string (text : String) :
    readString printer (.string text) = .ok text := rfl

/-- Only a text is read as one. -/
theorem readString_ok {json : Json} {text : String} (read : readString printer json = .ok text) :
    json = .string text := by
  cases json with
  | string content => exact congrArg Json.string (Except.ok.inj read)
  | _ => cases read

@[simp] theorem readField_cons_self (name : String) (json : Json) (rest : List (String × Json))
    (read : Json → Except String α) :
    readField ((name, json) :: rest) name read = (read json).map some := by
  simp [readField]

theorem readField_cons_ne {name other : String} (different : other ≠ name) (json : Json)
    (rest : List (String × Json)) (read : Json → Except String α) :
    readField ((name, json) :: rest) other read = readField rest other read := by
  simp only [readField, List.lookup_cons, beq_eq_false_iff_ne.mpr different]

/-- A field that has been read is in the object. -/
theorem readField_some {fields : List (String × Json)} {name : String}
    {read : Json → Except String α} {value : α}
    (found : readField fields name read = .ok (some value)) :
    ∃ json, fields.lookup name = some json ∧ read json = .ok value := by
  unfold readField at found
  split at found
  · cases found
  · next json isField =>
      refine ⟨json, isField, ?_⟩
      cases isRead : read json with
      | error error =>
          rw [isRead] at found
          cases found
      | ok value =>
          rw [isRead] at found
          exact congrArg Except.ok (Option.some.inj (Except.ok.inj found))

@[simp] theorem required_some (name : String) (absent : Option α) (value : α) :
    required name absent (some value) = .ok value := rfl

theorem required_ok {name : String} {absent value : Option α} {result : α}
    (isRequired : required name absent value = .ok result) :
    value = some result ∨ value = none ∧ absent = some result := by
  unfold required at isRequired
  cases value with
  | some value => exact Or.inl (congrArg some (Except.ok.inj isRequired))
  | none =>
      cases absent with
      | some value => exact Or.inr ⟨rfl, congrArg some (Except.ok.inj isRequired)⟩
      | none => cases isRequired

end Serde
