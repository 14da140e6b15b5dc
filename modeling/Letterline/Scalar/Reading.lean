/-
Module: Letterline.Scalar.Reading
Purpose: Reading values from literal texts and from user input.
Trusted boundary: none
Main exports:
  Scalar.readInt?, Scalar.readDouble?, Scalar.readBool?, Scalar.ofInput?
-/
import Letterline.Scalar

namespace Letterline.Scalar

/-- Reads an integer: an optional sign and digits, within 32 bits. -/
def readInt? (text : String) : Option Int32 :=
  (signedDigits? text.toList).bind fun value =>
    if Int32.minValue.toInt ≤ value ∧ value ≤ Int32.maxValue.toInt then
      some (Int32.ofInt value)
    else
      none

/-- Reads a double from a numeral.  Words for infinity and NaN are no numerals. -/
def readDouble? (text : String) : Option Double :=
  (Numeral.ofText? text.toList).map Numeral.toDouble

/-- The text in lower case.  Only ASCII letters change: no other character has one
of the letters of a boolean word for its lower case. -/
def lowered (text : String) : String :=
  text.map Char.toLower

/-- Reads a boolean word in any case, or `1` or `0`. -/
def readBool? (text : String) : Option Bool :=
  match lowered text with
  | "true" | "1" => some true
  | "false" | "0" => some false
  | _ => none

/-- The value of a line of user input: the first of integer, double, single
character, boolean and string that it can be.  An empty line has no value. -/
def ofInput? (line : String) : Option Scalar :=
  if let some value := readInt? line then
    some (.int value)
  else if let some value := readDouble? line then
    some (.double value)
  else
    match line.toList with
    | [] => none
    | [value] => some (.char value)
    | _ =>
        match line with
        | "true" => some (.bool true)
        | "false" => some (.bool false)
        | _ => some (.string line)

end Letterline.Scalar
