/-
Module: Letterline.Proofs.Rounding
Purpose: Rounding looks at a ratio only, and the shortest digits of a double are read as
  the double.
Trusted boundary: none
Main exports:
  Double.roundSignificant_congr, Double.ofRatio_exact, Numeral.toDouble_eq_rounded,
  Numeral.toDouble_shifted, Double.Magnitude.toDouble_shortest
-/
import Letterline.Double.Shortest

namespace Letterline

/-!
A numeral can be written in many ways: its coefficient takes a zero and its exponent falls by
one.  What it denotes does not change, because a double is rounded from the ratio and not from
its two numbers, and because the tests of its size that come first never decide otherwise than
rounding would.  So whatever digits were found for a double, they can be laid out anyhow.
-/

namespace Double

variable {num den otherNum otherDen factor : Nat}

/-! ### Quanta -/

theorem unit_pos : 0 < unit := by
  unfold unit
  exact pow_two_pos _

theorem pow_two_mul_unit (exponent : Nat) :
    Nat.pow 2 exponent * unit = Nat.pow 2 (exponent + quantumPlaces) := by
  have sum (places : Nat) : Nat.pow 2 exponent * Nat.pow 2 places = Nat.pow 2 (exponent + places) :=
    (Nat.pow_add 2 exponent places).symm
  unfold unit
  exact sum quantumPlaces

theorem overflow_le_pow_two {exponent : Nat} (large : 1024 ≤ exponent) :
    overflow ≤ Nat.pow 2 (exponent + quantumPlaces) := by
  have grows (places : Nat) : Nat.pow 2 (places + 1024) ≤ Nat.pow 2 (exponent + places) :=
    Nat.pow_le_pow_right (by decide) (by omega)
  unfold overflow
  exact grows quantumPlaces

/-! ### Rounding a ratio -/

theorem nearestEven_mul_left (positive : 0 < factor) (num den : Nat) :
    nearestEven (factor * num) (factor * den) = nearestEven num den := by
  have twice : 2 * (factor * (num % den)) = factor * (2 * (num % den)) :=
    Nat.mul_left_comm 2 factor _
  simp only [nearestEven, Nat.mul_div_mul_left _ _ positive, Nat.mul_mod_mul_left, twice,
    Nat.mul_lt_mul_left positive]

/-- A whole number is nearest to itself. -/
theorem nearestEven_mul_self (positive : 0 < den) (whole : Nat) :
    nearestEven (whole * den) den = whole := by
  simp [nearestEven, Nat.mul_div_cancel _ positive, positive]

theorem le_nearestEven (num den : Nat) : num / den ≤ nearestEven num den := by
  simp only [nearestEven]
  split
  · exact Nat.le_refl _
  · split
    · exact Nat.le_succ _
    · exact Nat.le_add_right _ _

theorem roundSignificant_mul_left (positive : 0 < factor) (num den : Nat) :
    roundSignificant (factor * num) (factor * den) = roundSignificant num den := by
  simp only [roundSignificant, spareDigits, Nat.mul_div_mul_left _ _ positive, Nat.mul_assoc,
    nearestEven_mul_left positive]

/-- Equal ratios are rounded alike. -/
theorem roundSignificant_congr (positive : 0 < den) (otherPositive : 0 < otherDen)
    (same : num * otherDen = otherNum * den) :
    roundSignificant num den = roundSignificant otherNum otherDen := by
  calc roundSignificant num den
    _ = roundSignificant (otherDen * num) (otherDen * den) :=
        (roundSignificant_mul_left otherPositive num den).symm
    _ = roundSignificant (den * otherNum) (den * otherDen) := by
        rw [Nat.mul_comm otherDen num, same, Nat.mul_comm otherNum den, Nat.mul_comm otherDen den]
    _ = roundSignificant otherNum otherDen := roundSignificant_mul_left positive otherNum otherDen

/-- What is representable needs no rounding. -/
theorem roundSignificant_exact {quanta : Nat} (representable : Representable quanta)
    (positive : 0 < den) : roundSignificant (quanta * den) den = quanta := by
  obtain ⟨factor, parts⟩ := representable.2
  have scalePositive := pow_two_pos (quanta.log2 - 52)
  have whole : quanta * den = factor * (den * Nat.pow 2 (quanta.log2 - 52)) := by
    rw [← Nat.mul_assoc, Nat.mul_right_comm, Nat.mul_comm factor, ← parts]
  simp only [roundSignificant, spareDigits, Nat.mul_div_cancel _ positive]
  rw [whole, nearestEven_mul_self (Nat.mul_pos positive scalePositive), Nat.mul_comm, ← parts]

/-- Rounding does not go below a power of two. -/
theorem two_pow_le_roundSignificant {exponent : Nat}
    (large : Nat.pow 2 exponent ≤ num / den) :
    Nat.pow 2 exponent ≤ roundSignificant num den := by
  have filled : num / den ≠ 0 := Nat.ne_of_gt (Nat.lt_of_lt_of_le (pow_two_pos exponent) large)
  have length : exponent ≤ (num / den).log2 := (Nat.le_log2 filled).mpr large
  have parts : Nat.pow 2 (num / den).log2 =
      Nat.pow 2 ((num / den).log2 - spareDigits num den) * Nat.pow 2 (spareDigits num den) := by
    have sum : (num / den).log2 - spareDigits num den + spareDigits num den =
        (num / den).log2 := Nat.sub_add_cancel (Nat.sub_le _ _)
    calc Nat.pow 2 (num / den).log2
      _ = Nat.pow 2 ((num / den).log2 - spareDigits num den + spareDigits num den) := by rw [sum]
      _ = _ := Nat.pow_add 2 _ _
  have kept : Nat.pow 2 ((num / den).log2 - spareDigits num den) ≤
      num / (den * Nat.pow 2 (spareDigits num den)) := by
    rw [← Nat.div_div_eq_div_mul, Nat.le_div_iff_mul_le (pow_two_pos _), ← parts]
    exact Nat.log2_self_le filled
  calc Nat.pow 2 exponent
    _ ≤ Nat.pow 2 (num / den).log2 := Nat.pow_le_pow_right (by decide) length
    _ = Nat.pow 2 ((num / den).log2 - spareDigits num den) *
          Nat.pow 2 (spareDigits num den) := parts
    _ ≤ roundSignificant num den :=
        Nat.mul_le_mul_right _ (Nat.le_trans kept (le_nearestEven _ _))

/-- What is less than a half is rounded to nothing. -/
theorem roundSignificant_of_small (small : 2 * num < den) : roundSignificant num den = 0 := by
  have nothing : num / den = 0 := Nat.div_eq_of_lt (by omega)
  have digits : spareDigits num den = 0 := by simp [spareDigits, nothing]
  have rest : num % den = num := Nat.mod_eq_of_lt (by omega)
  simp [roundSignificant, digits, nearestEven, nothing, rest, small]

theorem ofRatio_congr (negative : Bool) (positive : 0 < den) (otherPositive : 0 < otherDen)
    (same : num * otherDen = otherNum * den) :
    ofRatio negative num den = ofRatio negative otherNum otherDen := by
  simp only [ofRatio, roundSignificant_congr positive otherPositive same]

/-- The ratio that is a magnitude is rounded to it. -/
theorem ofRatio_exact (negative : Bool) (magnitude : Magnitude) (positive : 0 < den) :
    ofRatio negative (magnitude.quanta * den) den = .finite negative magnitude := by
  rcases magnitude with ⟨quanta, representable⟩
  simp only [ofRatio, roundSignificant_exact representable positive, representable.1,
    dite_true]

theorem ofRatio_of_small (negative : Bool) (small : 2 * num < den) :
    ofRatio negative num den = zero negative := by
  simp only [ofRatio, roundSignificant_of_small small, overflow_pos, dite_true, zero]

theorem ofRatio_of_large {exponent : Nat} (negative : Bool)
    (bound : overflow ≤ Nat.pow 2 exponent) (large : Nat.pow 2 exponent ≤ num / den) :
    ofRatio negative num den = .infinite negative := by
  have reached := Nat.le_trans bound (two_pow_le_roundSignificant large)
  simp only [ofRatio, Nat.not_lt.mpr reached, dite_false]

/-- The sign has no part in rounding. -/
theorem ofRatio_signed {given denoted : Bool} {magnitude : Magnitude} (negative : Bool)
    (rounds : ofRatio given num den = .finite denoted magnitude) :
    ofRatio negative num den = .finite negative magnitude := by
  rw [ofRatio] at rounds ⊢
  split at rounds
  · next fits =>
      cases rounds
      simp only [fits, dite_true]
  · cases rounds

end Double

/-! ### Numerals of one value -/

namespace Numeral

open Double

theorem pow_ten_pos (exponent : Nat) : 0 < Nat.pow 10 exponent :=
  Nat.pow_pos (by decide)

/-- Ten is more than two to the third. -/
theorem pow_two_le_pow_ten (exponent : Nat) : Nat.pow 2 (3 * exponent) ≤ Nat.pow 10 exponent := by
  have eights : Nat.pow 2 (3 * exponent) = Nat.pow 8 exponent := Nat.pow_mul 2 3 exponent
  rw [eights]
  exact Nat.pow_le_pow_left (by decide) exponent

/-- The ratio of a numeral, whatever the sign of its exponent. -/
theorem rounded_eq (numeral : Numeral) :
    numeral.rounded =
      ofRatio numeral.negative
        (numeral.coefficient * Nat.pow 10 numeral.exponent.toNat * unit)
        (Nat.pow 10 (-numeral.exponent).toNat) := by
  rcases numeral with ⟨negative, coefficient, exponent⟩
  cases exponent with
  | ofNat exponent =>
      have below : (-(Int.ofNat exponent)).toNat = 0 := by simp
      simp only [rounded, below]
      rfl
  | negSucc exponent =>
      have one : Nat.pow 10 (Int.negSucc exponent).toNat = 1 := rfl
      simp only [rounded, one, Nat.mul_one]
      rfl

/-- A numeral that is settled as too large by its exponent is. -/
theorem rounded_of_large {numeral : Numeral} (filled : numeral.coefficient ≠ 0)
    (large : 400 ≤ numeral.exponent) : numeral.rounded = .infinite numeral.negative := by
  rw [rounded_eq]
  have below : (-numeral.exponent).toNat = 0 := by omega
  have one : Nat.pow 10 0 = 1 := rfl
  rw [below, one]
  refine ofRatio_of_large _ (overflow_le_pow_two (by omega : 1024 ≤ 3 * numeral.exponent.toNat)) ?_
  rw [Nat.div_one, ← pow_two_mul_unit]
  refine Nat.mul_le_mul_right unit (Nat.le_trans (pow_two_le_pow_ten _) ?_)
  exact Nat.le_mul_of_pos_left _ (Nat.pos_of_ne_zero filled)

/-- A numeral that is settled as too small by its size is. -/
theorem rounded_of_small {numeral : Numeral}
    (small : numeral.coefficient.log2 + 1 + 3 * numeral.exponent ≤ -1080) :
    numeral.rounded = .zero numeral.negative := by
  rw [rounded_eq]
  have above : numeral.exponent.toNat = 0 := by omega
  have one : Nat.pow 10 0 = 1 := rfl
  rw [above, one, Nat.mul_one]
  refine ofRatio_of_small _ ?_
  have length : numeral.coefficient.log2 + 1 + quantumPlaces + 1 ≤
      3 * (-numeral.exponent).toNat := by
    unfold quantumPlaces
    omega
  calc 2 * (numeral.coefficient * unit)
    _ < 2 * (Nat.pow 2 (numeral.coefficient.log2 + 1) * unit) :=
        Nat.mul_lt_mul_of_pos_left
          (Nat.mul_lt_mul_of_pos_right Nat.lt_log2_self unit_pos) (by decide)
    _ = Nat.pow 2 (numeral.coefficient.log2 + 1 + quantumPlaces + 1) := by
        rw [pow_two_mul_unit, Nat.mul_comm]
        exact (Nat.pow_succ 2 _).symm
    _ ≤ Nat.pow 2 (3 * (-numeral.exponent).toNat) := Nat.pow_le_pow_right (by decide) length
    _ ≤ Nat.pow 10 (-numeral.exponent).toNat := pow_two_le_pow_ten _

/-- Looking at the size of a numeral first makes no difference. -/
theorem toDouble_eq_rounded (numeral : Numeral) : numeral.toDouble = numeral.rounded := by
  rw [toDouble]
  split
  · next empty =>
      rw [rounded_eq, empty, Nat.zero_mul, Nat.zero_mul]
      exact (ofRatio_of_small _ (pow_ten_pos _)).symm
  · next filled =>
      split
      · next large => exact (rounded_of_large filled large).symm
      · split
        · next small => exact (rounded_of_small small).symm
        · rfl

/-- A zero of the coefficient counts as much as one in the exponent. -/
theorem toDouble_shifted (negative : Bool) (coefficient count : Nat) (exponent : Int) :
    toDouble ⟨negative, coefficient * Nat.pow 10 count, exponent⟩ =
      toDouble ⟨negative, coefficient, exponent + count⟩ := by
  rw [toDouble_eq_rounded, toDouble_eq_rounded, rounded_eq, rounded_eq]
  refine ofRatio_congr negative (pow_ten_pos _) (pow_ten_pos _) ?_
  have places : count + exponent.toNat + (-(exponent + count)).toNat =
      (exponent + count).toNat + (-exponent).toNat := by omega
  have powers : Nat.pow 10 count * Nat.pow 10 exponent.toNat *
        Nat.pow 10 (-(exponent + count)).toNat =
      Nat.pow 10 (exponent + count).toNat * Nat.pow 10 (-exponent).toNat := by
    simp only [Nat.pow_eq, ← Nat.pow_add, places]
  have regrouped (a b c d e : Nat) : a * b * c * d * e = a * (b * c * e) * d := by ac_rfl
  have split (a b c d : Nat) : a * (b * c) * d = a * b * d * c := by ac_rfl
  rw [regrouped, powers, split]

/-- A numeral that denotes a magnitude denotes it with either sign. -/
theorem toDouble_signed {numeral : Numeral} {denoted : Bool} {magnitude : Magnitude}
    (negative : Bool) (denotes : numeral.toDouble = .finite denoted magnitude) :
    toDouble ⟨negative, numeral.coefficient, numeral.exponent⟩ = .finite negative magnitude := by
  rw [toDouble_eq_rounded, rounded_eq] at denotes ⊢
  exact ofRatio_signed negative denotes

end Numeral

/-! ### The shortest digits -/

namespace Double.Magnitude

/-- All digits of a magnitude denote it. -/
theorem toDouble_exact (magnitude : Magnitude) :
    magnitude.exact.toDouble = .finite false magnitude := by
  have parts (places : Nat) : Nat.pow 5 places * Nat.pow 2 places = Nat.pow 10 places :=
    (Nat.mul_pow 5 2 places).symm
  have tens : Nat.pow 5 quantumPlaces * unit = Nat.pow 10 quantumPlaces := by
    unfold unit
    exact parts quantumPlaces
  have one : Nat.pow 10 0 = 1 := rfl
  have above (places : Nat) : (-(places : Int)).toNat = 0 := by omega
  have below (places : Nat) : (- -(places : Int)).toNat = places := by omega
  rw [Numeral.toDouble_eq_rounded, Numeral.rounded_eq, exact, above, below, one, Nat.mul_one,
    Nat.mul_assoc, tens]
  exact ofRatio_exact false magnitude (Numeral.pow_ten_pos quantumPlaces)

theorem toDouble_of_onGrid {tie : TieRule} {magnitude : Magnitude} {place : Int}
    {coefficient : Nat} (found : magnitude.onGrid? tie place = some coefficient) :
    Numeral.toDouble ⟨false, coefficient, place⟩ = .finite false magnitude := by
  have readBack {coefficient : Nat} (reads : magnitude.readsBack coefficient place = true) :
      Numeral.toDouble ⟨false, coefficient, place⟩ = .finite false magnitude :=
    of_decide_eq_true reads
  simp only [onGrid?] at found
  split at found
  · next below above =>
      split at found
      · cases found; exact readBack below
      · split at found
        · cases found; exact readBack above
        · cases tie with
          | up => cases found; exact readBack above
          | even =>
              cases found
              -- the even one of two neighbours is one of them
              rcases Nat.mod_two_eq_zero_or_one
                ((inUnits magnitude.quanta place).1 / (inUnits magnitude.quanta place).2) with
                even | odd
              · rw [even]; exact readBack below
              · rw [odd]; exact readBack above
  · next below _ => cases found; exact readBack below
  · next _ above => cases found; exact readBack above
  · cases found

theorem toDouble_search (tie : TieRule) (magnitude : Magnitude) (leading : Int)
    (attempts digits : Nat) :
    (search tie magnitude leading attempts digits).toDouble = .finite false magnitude := by
  induction attempts generalizing digits with
  | zero => exact magnitude.toDouble_exact
  | succ attempts inductionHypothesis =>
      simp only [search]
      split
      · next found => exact toDouble_of_onGrid found
      · exact inductionHypothesis (digits + 1)

/-- The digits that are found for a magnitude denote it. -/
theorem toDouble_shortest (tie : TieRule) (magnitude : Magnitude) :
    (magnitude.shortest tie).toDouble = .finite false magnitude :=
  toDouble_search tie magnitude _ 17 1

end Double.Magnitude

end Letterline
