/-
Module: Letterline.Double.Numeral
Purpose: Decimal numerals, the double a numeral denotes, and the written forms.
Trusted boundary: none
Main exports:
  Numeral, Numeral.toDouble, Numeral.ofText?, digitsValue, signedDigits?
-/
import Letterline.Double

namespace Letterline

/-!
A numeral is a sign, a whole coefficient and a power of ten.  It denotes the
nearest double, whatever its length: the coefficient is exact and only the final
quotient is rounded.
-/

/-- The number that a run of decimal digits writes. -/
def digitsValue (digits : List Char) : Nat :=
  digits.foldl (fun value digit => 10 * value + (digit.toNat - '0'.toNat)) 0

/-- Separates an optional leading sign; the flag says whether it is a minus. -/
def splitSign : List Char → Bool × List Char
  | '-' :: rest => (true, rest)
  | '+' :: rest => (false, rest)
  | text => (false, text)

/-- Reads an optional sign and at least one digit, and nothing else. -/
def signedDigits? (text : List Char) : Option Int :=
  let (negative, digits) := splitSign text
  if !digits.isEmpty && digits.all Char.isDigit then
    some (if negative then -(digitsValue digits : Int) else digitsValue digits)
  else
    none

/-- The number `± coefficient * 10 ^ exponent`. -/
structure Numeral where
  negative : Bool
  coefficient : Nat
  exponent : Int
deriving DecidableEq

namespace Numeral

/-- Rounds without looking at the size of the numeral first. -/
def rounded (numeral : Numeral) : Double :=
  match numeral.exponent with
  | .ofNat e => .ofRatio numeral.negative (numeral.coefficient * Nat.pow 10 e * Double.unit) 1
  | .negSucc e => .ofRatio numeral.negative (numeral.coefficient * Double.unit) (Nat.pow 10 (e + 1))

/-- The double nearest to a numeral.

Numerals that are far out of range are settled by their size, so that the length
of an exponent does not matter: `10 ^ 400` is past every double, and a numeral
below `2 ^ (-1080)` is below half a quantum. -/
def toDouble (numeral : Numeral) : Double :=
  if numeral.coefficient = 0 then
    .zero numeral.negative
  else if 400 ≤ numeral.exponent then
    .infinite numeral.negative
  else if numeral.coefficient.log2 + 1 + 3 * numeral.exponent ≤ -1080 then
    .zero numeral.negative
  else
    numeral.rounded

/-- Reads the exponent that may end a numeral: nothing, or a letter `e` in either
case and signed digits. -/
def exponentOf? : List Char → Option Int
  | [] => some 0
  | mark :: rest => if mark = 'e' ∨ mark = 'E' then signedDigits? rest else none

/-- Reads digits, an optional point with more digits, and an optional exponent.
At least one digit stands before the exponent. -/
def ofUnsigned? (negative : Bool) (text : List Char) : Option Numeral :=
  let whole := text.takeWhile Char.isDigit
  let afterWhole := text.dropWhile Char.isDigit
  let (fraction, rest) :=
    match afterWhole with
    | '.' :: tail => (tail.takeWhile Char.isDigit, tail.dropWhile Char.isDigit)
    | _ => ([], afterWhole)
  if whole.isEmpty && fraction.isEmpty then
    none
  else
    (exponentOf? rest).map fun exponent =>
      ⟨negative, digitsValue (whole ++ fraction), exponent - fraction.length⟩

/-- Reads a numeral with an optional sign. -/
def ofText? (text : List Char) : Option Numeral :=
  let (negative, rest) := splitSign text
  ofUnsigned? negative rest

end Numeral

end Letterline
