/-
Module: Letterline.Json
Purpose: JSON values, their records and their nesting.
Trusted boundary: none
Main exports:
  Json, Json.field?, Json.record?, Json.nesting
-/
import Letterline.Double

namespace Letterline

/-- A JSON value.  A number without fraction and exponent is an integer, any other
a double. -/
inductive Json where
  | null
  | bool (value : Bool)
  | int (value : Int)
  | double (value : Double)
  | string (value : String)
  | array (items : List Json)
  | object (fields : List (String × Json))

namespace Json

/-- The value of a field.  Of fields with one name the last counts. -/
def field? (name : String) (fields : List (String × Json)) : Option Json :=
  match fields with
  | [] => none
  | (key, value) :: rest =>
      match field? name rest with
      | some later => some later
      | none => if key = name then some value else none

/-- The fields of a record by name and in order, absent ones as `none`.

A record is written as an object, whose other fields are ignored, or as an array
of its fields in order, which may stop after the first `needed` of them. -/
def record? (names : List String) (needed : Nat) : Json → Option (List (Option Json))
  | .object fields => some (names.map fun name => field? name fields)
  | .array items =>
      if needed ≤ items.length ∧ items.length ≤ names.length then
        some (items.map some ++ List.replicate (names.length - items.length) none)
      else
        none
  | _ => none

/-- The tag of a tagged value and what comes with it: an object keeps all its
fields, an array loses its first item. -/
def tagged? (tagName : String) : Json → Option (String × Json)
  | .object fields =>
      match field? tagName fields with
      | some (.string tag) => some (tag, .object fields)
      | _ => none
  | .array (.string tag :: items) => some (tag, .array items)
  | _ => none

mutual

/-- How many lists and objects stand around each other in a value. -/
def nesting : Json → Nat
  | .array items => itemsNesting items + 1
  | .object fields => fieldsNesting fields + 1
  | _ => 0

/-- The nesting of the deepest item. -/
def itemsNesting : List Json → Nat
  | [] => 0
  | item :: items => max item.nesting (itemsNesting items)

/-- The nesting of the deepest field. -/
def fieldsNesting : List (String × Json) → Nat
  | [] => 0
  | (_, value) :: fields => max value.nesting (fieldsNesting fields)

end

/-- A text with this many lists and objects around each other is not read. -/
def nestingLimit : Nat :=
  128

end Json

end Letterline
