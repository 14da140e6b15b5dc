/-
Module: Letterline.Double.Layout
Purpose: Written forms of doubles.
Trusted boundary: none
Main exports:
  Double.Layout, Double.Layout.write, Double.text
-/
import Letterline.Double.Shortest

namespace Letterline.Double

/-!
All written forms of a double use its shortest digits.  They differ in where
positional notation ends, in whether a whole number keeps a fraction, in the sign
of an exponent and in the words for what is not finite.
-/

/-- The decisions that make a written form. -/
structure Layout where
  /-- Positional notation is used from this exponent of the first digit ... -/
  positionalFrom : Int
  /-- ... and below this one. -/
  positionalBelow : Int
  /-- A whole number in positional notation ends in `.0`. -/
  keepsFraction : Bool
  /-- A positive exponent is written with a plus sign. -/
  signsExponent : Bool
  /-- Which of two equally near digits is written. -/
  tie : TieRule
  /-- The word for an infinity, after its sign. -/
  infinity : String
  /-- The word for NaN. -/
  notANumber : String

namespace Layout

/-- Drops zeros at the end of a run of digits. -/
def withoutTrailingZeros (digits : List Char) : List Char :=
  (digits.reverse.dropWhile (· == '0')).reverse

/-- Digits with a point after the first `wholeDigits` of them, zeros filling the
places that have no digit. -/
def positional (layout : Layout) (digits : List Char) (leading : Int) : List Char :=
  match leading with
  | .ofNat e =>
      let whole := digits.take (e + 1) ++ List.replicate (e + 1 - digits.length) '0'
      let fraction := digits.drop (e + 1)
      if !fraction.isEmpty then whole ++ '.' :: fraction
      else if layout.keepsFraction then whole ++ ['.', '0']
      else whole
  | .negSucc e => '0' :: '.' :: (List.replicate e '0' ++ digits)

/-- One digit, a point and the others if there are any, and the exponent. -/
def scientific (layout : Layout) (digits : List Char) (leading : Int) : List Char :=
  let fraction := digits.drop 1
  let sign :=
    if leading < 0 then ['-'] else if layout.signsExponent then ['+'] else []
  digits.take 1 ++ (if fraction.isEmpty then [] else '.' :: fraction)
    ++ 'e' :: (sign ++ Nat.toDigits 10 leading.natAbs)

/-- The written form of a magnitude. -/
def writeMagnitude (layout : Layout) (magnitude : Magnitude) : List Char :=
  if magnitude.quanta = 0 then
    layout.positional ['0'] 0
  else
    let numeral := magnitude.shortest layout.tie
    let all := Nat.toDigits 10 numeral.coefficient
    let digits := withoutTrailingZeros all
    let leading := numeral.exponent + all.length - 1
    if layout.positionalFrom ≤ leading ∧ leading < layout.positionalBelow then
      layout.positional digits leading
    else
      layout.scientific digits leading

/-- The sign as written. -/
def sign (negative : Bool) : List Char :=
  if negative then ['-'] else []

/-- The written form of a double. -/
def write (layout : Layout) : Double → List Char
  | .nan => layout.notANumber.toList
  | .infinite negative => sign negative ++ layout.infinity.toList
  | .finite negative magnitude => sign negative ++ layout.writeMagnitude magnitude

end Layout

/-- Programs print a double with a fraction, positionally from `0.0001` to below
`10 ^ 16`, and otherwise with an exponent. -/
def programLayout : Layout where
  positionalFrom := -4
  positionalBelow := 16
  keepsFraction := true
  signsExponent := false
  tie := .up
  infinity := "inf"
  notANumber := "NaN"

/-- The text of a double in a program's output. -/
def text (x : Double) : String :=
  String.ofList (programLayout.write x)

end Letterline.Double
