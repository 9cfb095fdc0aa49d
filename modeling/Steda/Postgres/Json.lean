import Steda.Postgres.Numeric

/-!
# JSON values

The values of the `jsonb` type, with the operators the stored functions use:
field access, the text of a value, key enumeration, and equality.  Equality
compares numbers by value and objects as maps.
-/

namespace Postgres

/-- A JSON value.  Objects list their fields, each key at most once. -/
inductive Json
  | null
  | bool (value : Bool)
  | number (value : Numeric)
  | string (value : String)
  | array (items : List Json)
  | object (fields : List (String × Json))

namespace Json

/-- The empty object. -/
def emptyObject : Json := .object []

/-- The value is an object. -/
def isObject : Json → Bool
  | .object _ => true
  | _ => false

/-- The value is JSON null. -/
def isNull : Json → Bool
  | .null => true
  | _ => false

/-- The value is the empty object. -/
def isEmptyObject : Json → Bool
  | .object [] => true
  | _ => false

/-- Operator `->`: the value under a key of an object. -/
def field? : Json → String → Option Json
  | .object fields, key => fields.lookup key
  | _, _ => none

/-- Operator `?`: an object has the key. -/
def hasKey (value : Json) (key : String) : Bool := (value.field? key).isSome

/-- The keys of an object. -/
def keys : Json → List String
  | .object fields => fields.map Prod.fst
  | _ => []

/-- The number stored in a JSON number. -/
def number? : Json → Option Numeric
  | .number value => some value
  | _ => none

/-- The text of a JSON string. -/
def string? : Json → Option String
  | .string value => some value
  | _ => none

/-- One character of a quoted JSON string. -/
def escapeChar (char : Char) : List Char :=
  if char = '"' then ['\\', '"']
  else if char = '\\' then ['\\', '\\']
  else if char = '\n' then ['\\', 'n']
  else if char = '\r' then ['\\', 'r']
  else if char = '\t' then ['\\', 't']
  else if char.toNat = 8 then ['\\', 'b']
  else if char.toNat = 12 then ['\\', 'f']
  else if char.toNat < 32 then
    ['\\', 'u', '0', '0', Nat.digitChar (char.toNat / 16), Nat.digitChar (char.toNat % 16)]
  else [char]

/-- A quoted JSON string. -/
def quote (text : String) : String :=
  "\"" ++ String.ofList (text.toList.flatMap escapeChar) ++ "\""

mutual

/-- Text of a JSON value. -/
def render : Json → String
  | .null => "null"
  | .bool value => if value then "true" else "false"
  | .number value => value.toText
  | .string value => quote value
  | .array items => "[" ++ String.intercalate ", " (renderItems items) ++ "]"
  | .object fields => "\x7b" ++ String.intercalate ", " (renderFields fields) ++ "\x7d"

/-- Texts of the items of an array. -/
def renderItems : List Json → List String
  | [] => []
  | item :: rest => item.render :: renderItems rest

/-- Texts of the fields of an object. -/
def renderFields : List (String × Json) → List String
  | [] => []
  | (key, value) :: rest => (quote key ++ ": " ++ value.render) :: renderFields rest

end

/-- Operator `->>`: the value under a key as text.  A JSON null reads as SQL
NULL and a string as its unquoted content. -/
def text? (value : Json) (key : String) : Option String :=
  match value.field? key with
  | none => none
  | some .null => none
  | some (.string content) => some content
  | some other => some other.render

mutual

/-- Equality of JSON values. -/
def eqv : Json → Json → Bool
  | .null, .null => true
  | .bool left, .bool right => left == right
  | .number left, .number right => left.eqv right
  | .string left, .string right => left == right
  | .array left, .array right => eqvItems left right
  | .object left, .object right => left.length == right.length && eqvFields left right
  | _, _ => false

/-- Equality of the items of two arrays. -/
def eqvItems : List Json → List Json → Bool
  | [], [] => true
  | left :: lefts, right :: rights => left.eqv right && eqvItems lefts rights
  | _, _ => false

/-- Every field of the first object occurs in the second. -/
def eqvFields : List (String × Json) → List (String × Json) → Bool
  | [], _ => true
  | (key, value) :: rest, others =>
      (match others.lookup key with
        | some other => value.eqv other
        | none => false) && eqvFields rest others

end

/-- `IS NOT DISTINCT FROM` on nullable JSON values. -/
def eqvNullable : Option Json → Option Json → Bool
  | none, none => true
  | some left, some right => left.eqv right
  | _, _ => false

mutual

/-- No string of the value contains U+0000, which `jsonb` cannot store. -/
def storable : Json → Bool
  | .null => true
  | .bool _ => true
  | .number _ => true
  | .string value => value.toList.all fun char => char.toNat != 0
  | .array items => storableItems items
  | .object fields => storableFields fields

/-- Every item is storable. -/
def storableItems : List Json → Bool
  | [] => true
  | item :: rest => item.storable && storableItems rest

/-- Every key and every value is storable. -/
def storableFields : List (String × Json) → Bool
  | [] => true
  | (key, value) :: rest =>
      (key.toList.all fun char => char.toNat != 0) && value.storable && storableFields rest

end

end Json
end Postgres
