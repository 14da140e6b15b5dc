/-
Module: Letterline.Scalar
Purpose: The values that programs compute with, their kinds and their texts.
Trusted boundary: none
Main exports:
  Scalar, Kind, Scalar.kind, Scalar.text, Scalar.number?
-/
import Letterline.Double.Layout

namespace Letterline

/-- A computed value. -/
inductive Scalar where
  | int (value : Int32)
  | double (value : Double)
  | bool (value : Bool)
  | char (value : Char)
  | string (value : String)
deriving DecidableEq

/-- What a value, or a part of one that is still to be evaluated, is. -/
inductive Kind where
  | integer
  | double
  | boolean
  | character
  | string
  | variable
  | input
  /-- Empty user input. -/
  | unknown
deriving Repr, DecidableEq

/-- The name of a kind in messages. -/
def Kind.name : Kind → String
  | .integer => "integer"
  | .double => "double"
  | .boolean => "boolean"
  | .character => "character"
  | .string => "string"
  | .variable => "variable"
  | .input => "input"
  | .unknown => "unknown"

namespace Scalar

/-- The kind of a computed value. -/
def kind : Scalar → Kind
  | .int _ => .integer
  | .double _ => .double
  | .bool _ => .boolean
  | .char _ => .character
  | .string _ => .string

/-- The text that printing and concatenation use. -/
def text : Scalar → String
  | .int value => toString value.toInt
  | .double value => value.text
  | .bool value => if value then "true" else "false"
  | .char value => String.singleton value
  | .string value => value

end Scalar

/-- One for true and zero for false. -/
def Double.ofBool (value : Bool) : Double :=
  .ofInt (if value then 1 else 0)

/-- The codepoint of a character. -/
def Double.ofChar (value : Char) : Double :=
  .ofInt value.toNat

/-- An integer as a double, always exactly. -/
def Double.ofInt32 (value : Int32) : Double :=
  .ofInt value.toInt

/-- The number that a value counts as.  Strings count as none. -/
def Scalar.number? : Scalar → Option Double
  | .int value => some (.ofInt32 value)
  | .double value => some value
  | .bool value => some (.ofBool value)
  | .char value => some (.ofChar value)
  | .string _ => none

end Letterline
