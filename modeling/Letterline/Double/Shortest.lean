/-
Module: Letterline.Double.Shortest
Purpose: The fewest decimal digits that read back as a given double.
Trusted boundary: none
Main exports:
  TieRule, Double.Magnitude.shortest
-/
import Letterline.Double.Numeral

namespace Letterline

/-!
A positive double is written with as few digits as identify it.  For each number
of digits from one to seventeen the two neighbours of the value on that decimal
grid are read back; the first grid on which one of them is the double wins, and of
two hits the nearer one.  Should no grid answer, every digit of the exact value is
given, so that the numeral found denotes the double in every case.
-/

/-- Which of two equally near numerals is taken. -/
inductive TieRule where
  | even
  | up
deriving Repr, DecidableEq

namespace Double.Magnitude

/-- A number of quanta in units of `10 ^ place`, as numerator and denominator. -/
def inUnits (quanta : Nat) : (place : Int) → Nat × Nat
  | .ofNat p => (quanta, unit * Nat.pow 10 p)
  | .negSucc p => (quanta * Nat.pow 10 (p + 1), unit)

/-- Says whether a number of quanta reaches `10 ^ exponent`. -/
def reaches (quanta : Nat) (exponent : Int) : Bool :=
  let (num, den) := inUnits quanta exponent
  decide (den ≤ num)

/-- The exponent of the first decimal digit.  The binary length gives it up to
one, and a comparison decides. -/
def leadingExponent (quanta : Nat) : Int :=
  let guess := ((quanta.log2 : Int) - quantumPlaces) * 30103 / 100000
  if reaches quanta (guess + 1) then guess + 1
  else if reaches quanta guess then guess
  else guess - 1

/-- Says whether a coefficient at a place reads back as the magnitude. -/
def readsBack (magnitude : Magnitude) (coefficient : Nat) (place : Int) : Bool :=
  decide (Numeral.toDouble ⟨false, coefficient, place⟩ = .finite false magnitude)

/-- The coefficient at `place` that reads back as the magnitude and is nearest to
it, if there is one. -/
def onGrid? (tie : TieRule) (magnitude : Magnitude) (place : Int) : Option Nat :=
  let (num, den) := inUnits magnitude.quanta place
  let below := num / den
  let rest := num % den
  match magnitude.readsBack below place, magnitude.readsBack (below + 1) place with
  | true, true =>
      if 2 * rest < den then some below
      else if den < 2 * rest then some (below + 1)
      else match tie with
        | .even => some (below + below % 2)
        | .up => some (below + 1)
  | true, false => some below
  | false, true => some (below + 1)
  | false, false => none

/-- Every digit of the exact value. -/
def exact (magnitude : Magnitude) : Numeral :=
  ⟨false, magnitude.quanta * Nat.pow 5 quantumPlaces, -quantumPlaces⟩

/-- Searches grids from `digits` digits on, at most `attempts` of them. -/
def search (tie : TieRule) (magnitude : Magnitude) (leading : Int) :
    (attempts digits : Nat) → Numeral
  | 0, _ => magnitude.exact
  | attempts + 1, digits =>
      let place := leading + 1 - digits
      match magnitude.onGrid? tie place with
      | some coefficient => ⟨false, coefficient, place⟩
      | none => search tie magnitude leading attempts (digits + 1)

/-- The numeral with the fewest digits that reads back as the magnitude, and the
nearest of those. -/
def shortest (tie : TieRule) (magnitude : Magnitude) : Numeral :=
  search tie magnitude (leadingExponent magnitude.quanta) 17 1

end Double.Magnitude

end Letterline
