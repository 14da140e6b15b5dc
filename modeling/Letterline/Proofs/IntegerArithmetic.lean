/-
Module: Letterline.Proofs.IntegerArithmetic
Purpose: Arithmetic on whole numbers through doubles is exact, and clamped to 32 bits.
Trusted boundary: none
Main exports:
  Double.roundSignificant_div, saturated, Operator.onIntegers, Double.toInt32_apply,
  Scalar.integer?, Scalar.absorb_of_integers
-/
import Letterline.Proofs.Rounding
import Letterline.Scalar.Combination
import Mathlib.Tactic.Linarith
import Mathlib.Tactic.Ring

namespace Letterline

/-!
Integers, characters and truth values are combined as doubles, and the result is cut to an
integer of 32 bits.  Nothing is lost on the way.  A sum or a product is either small enough
for a double to hold it, or it is clamped whether it was rounded or not.  A quotient is
rounded, but never up to the next whole number: it is further from that than half of what its
last binary digit stands for.  A remainder is not rounded at all.
-/

/-! ### Rounding to whole numbers -/

namespace Double

variable {num den bound : Nat}

/-- What is more than a half below a number is not rounded to it. -/
theorem nearestEven_lt (below : 2 * num + den < 2 * bound * den) :
    nearestEven num den < bound := by
  have parts : den * (num / den) + num % den = num := Nat.div_add_mod num den
  have factor {k : Nat} (less : 2 * k * den < 2 * bound * den) : k < bound := by
    have := Nat.lt_of_mul_lt_mul_right less
    omega
  have parity : num / den % 2 < 2 := Nat.mod_lt _ (by decide)
  have expand : 2 * (num / den) * den = 2 * (den * (num / den)) := by ring
  have expandNext : 2 * (num / den + 1) * den = 2 * (den * (num / den)) + 2 * den := by ring
  simp only [nearestEven]
  split
  · exact factor (by omega)
  · have next : num / den + 1 < bound := factor (by omega)
    split <;> omega

/-- A whole number of units that a double can hold is representable. -/
theorem representable_units {n : Nat} (small : n ≤ Nat.pow 2 53) : Representable (n * unit) := by
  have room (places : Nat) : Nat.pow 2 53 * Nat.pow 2 places < Nat.pow 2 (places + 1024) :=
    lt_of_eq_of_lt (Nat.pow_add 2 53 places).symm
      (Nat.pow_lt_pow_right (by decide) (by omega))
  constructor
  · refine Nat.lt_of_le_of_lt (Nat.mul_le_mul_right unit small) ?_
    unfold unit overflow
    exact room quantumPlaces
  · unfold unit
    exact significant_dvd small

/-- Rounding a whole number of units changes it only beyond the range of integers. -/
theorem roundSignificant_units (n : Nat) :
    min (roundSignificant (n * unit) 1 / unit) (Nat.pow 2 31) = min n (Nat.pow 2 31) := by
  have order : Nat.pow 2 31 ≤ Nat.pow 2 53 := by decide
  by_cases small : n ≤ Nat.pow 2 53
  · have same := roundSignificant_exact (representable_units small) Nat.one_pos
    rw [Nat.mul_one] at same
    rw [same, Nat.mul_div_cancel n unit_pos]
  · have large : Nat.pow 2 53 ≤ n := by omega
    have reached : Nat.pow 2 53 * unit ≤ roundSignificant (n * unit) 1 := by
      rw [pow_two_mul_unit]
      refine two_pow_le_roundSignificant ?_
      rw [Nat.div_one, ← pow_two_mul_unit]
      exact Nat.mul_le_mul_right unit large
    have kept : Nat.pow 2 53 ≤ roundSignificant (n * unit) 1 / unit :=
      (Nat.le_div_iff_mul_le unit_pos).mpr reached
    omega

/-- No more digits are spared than a unit has. -/
theorem spareDigits_le {n : Nat} (small : n < Nat.pow 2 53) :
    spareDigits (n * unit) den ≤ quantumPlaces := by
  have length {whole places : Nat} (below : whole < Nat.pow 2 (53 + places)) :
      whole.log2 - 52 ≤ places := by
    by_cases empty : whole = 0
    · simp [empty]
    · have := (Nat.log2_lt empty).mpr below
      omega
  unfold spareDigits
  apply length
  rw [← pow_two_mul_unit]
  exact Nat.lt_of_le_of_lt (Nat.div_le_self _ _) (Nat.mul_lt_mul_of_pos_right small unit_pos)

theorem unit_eq_mul {places : Nat} (fits : places ≤ quantumPlaces) :
    unit = Nat.pow 2 places * Nat.pow 2 (quantumPlaces - places) := by
  have sum {whole : Nat} (fits : places ≤ whole) :
      Nat.pow 2 whole = Nat.pow 2 places * Nat.pow 2 (whole - places) := by
    calc Nat.pow 2 whole
      _ = Nat.pow 2 (places + (whole - places)) := by rw [Nat.add_sub_cancel' fits]
      _ = _ := Nat.pow_add 2 places _
  unfold unit
  exact sum fits

/-- The last digit of a rounded quotient is so fine that a half of it does not reach the next
whole number: a unit has more than `b / 2` times what it stands for. -/
theorem lt_twice_grain {a b spare grain : Nat} (small : a < Nat.pow 2 53)
    (divisor : b < Nat.pow 2 53) (digits : spareDigits (a * unit) b = spare)
    (split : unit = Nat.pow 2 spare * grain) : b < 2 * grain := by
  rcases Nat.eq_zero_or_pos spare with none | some
  · -- nothing is rounded away, and a unit is larger than the divisor
    have large : Nat.pow 2 53 ≤ unit := by
      have grows {places : Nat} (more : 53 ≤ places) : Nat.pow 2 53 ≤ Nat.pow 2 places :=
        Nat.pow_le_pow_right (by decide) more
      unfold unit
      exact grows (by unfold quantumPlaces; omega)
    have same : unit = grain := by rw [split, none]; exact Nat.one_mul grain
    omega
  · -- the digits beyond the fifty-third are those of a quotient that is less than `a` units
    have length : (a * unit / b).log2 = spare + 52 := by
      unfold spareDigits at digits
      omega
    have filled : a * unit / b ≠ 0 := by
      intro empty
      rw [empty] at length
      cases length
    have reached : Nat.pow 2 (spare + 52) ≤ a * unit / b := length ▸ Nat.log2_self_le filled
    have scale := pow_two_pos spare
    have parts : Nat.pow 2 (spare + 52) = Nat.pow 2 spare * Nat.pow 2 52 := Nat.pow_add 2 spare 52
    have quotient : Nat.pow 2 spare * (b * Nat.pow 2 52) ≤ Nat.pow 2 spare * (a * grain) :=
      calc Nat.pow 2 spare * (b * Nat.pow 2 52)
        _ = b * Nat.pow 2 (spare + 52) := by rw [parts]; ring
        _ ≤ b * (a * unit / b) := Nat.mul_le_mul_left b reached
        _ ≤ a * unit := Nat.mul_div_le _ _
        _ = Nat.pow 2 spare * (a * grain) := by rw [split]; ring
    have some : 0 < grain := by
      apply Nat.pos_of_ne_zero
      rintro rfl
      exact absurd split (Nat.ne_of_gt unit_pos)
    have less : b * Nat.pow 2 52 < 2 * grain * Nat.pow 2 52 :=
      calc b * Nat.pow 2 52
        _ ≤ a * grain := Nat.le_of_mul_le_mul_left quotient scale
        _ < Nat.pow 2 53 * grain := Nat.mul_lt_mul_of_pos_right small some
        _ = 2 * grain * Nat.pow 2 52 := by rw [Nat.mul_comm, Nat.mul_comm 2, Nat.mul_assoc]
    exact Nat.lt_of_mul_lt_mul_right less

/-- The rounded quotient of two whole numbers of units has the whole part of the exact one. -/
theorem roundSignificant_div {a b : Nat} (small : a < Nat.pow 2 53) (divisor : b < Nat.pow 2 53)
    (positive : 0 < b) : roundSignificant (a * unit) b / unit = a / b := by
  obtain ⟨spare, digits⟩ : ∃ spare, spareDigits (a * unit) b = spare := ⟨_, rfl⟩
  have fits : spare ≤ quantumPlaces := digits ▸ spareDigits_le small
  -- a unit in the scale of the rounding
  obtain ⟨grain, split⟩ : ∃ grain, unit = Nat.pow 2 spare * grain := ⟨_, unit_eq_mul fits⟩
  have scale := pow_two_pos spare
  have fine := lt_twice_grain small divisor digits split
  have rounded : roundSignificant (a * unit) b = Nat.pow 2 spare * nearestEven (a * grain) b := by
    rw [roundSignificant, digits, split, Nat.mul_left_comm a, Nat.mul_comm b,
      nearestEven_mul_left scale, Nat.mul_comm]
  have whole : roundSignificant (a * unit) b / unit = nearestEven (a * grain) b / grain := by
    rw [rounded, split, Nat.mul_div_mul_left _ _ scale]
  have parts : b * (a / b) + a % b = a := Nat.div_add_mod a b
  have rest : a % b + 1 ≤ b := Nat.mod_lt a positive
  rw [whole]
  refine Nat.div_eq_of_lt_le ?_ ?_
  · calc a / b * grain
      _ ≤ a * grain / b := by
          rw [Nat.le_div_iff_mul_le positive, Nat.mul_right_comm]
          exact Nat.mul_le_mul_right grain (Nat.div_mul_le_self a b)
      _ ≤ nearestEven (a * grain) b := le_nearestEven _ _
  · apply nearestEven_lt
    have gap : 2 * grain * (a % b + 1) ≤ 2 * grain * b := Nat.mul_le_mul_left _ rest
    calc 2 * (a * grain) + b
      _ = 2 * (b * (a / b)) * grain + 2 * (a % b) * grain + b := by nlinarith
      _ < 2 * ((a / b + 1) * grain) * b := by nlinarith

end Double

/-! ### Clamping -/

/-- The integer of 32 bits that is nearest to a whole number. -/
def saturated (n : Int) : Int32 :=
  .ofInt (max Int32.minValue.toInt (min n Int32.maxValue.toInt))

theorem toInt_saturated (n : Int) :
    (saturated n).toInt = max Int32.minValue.toInt (min n Int32.maxValue.toInt) := by
  have lowest := Int32.toInt_minValue
  have highest := Int32.toInt_maxValue
  apply Int32.toInt_ofInt_of_le <;> omega

theorem saturated_eq_ofIntClamp (n : Int) : saturated n = .ofIntClamp n := by
  have order : Int32.minValue.toInt ≤ Int32.maxValue.toInt := by decide
  rw [saturated, Int32.ofIntClamp]
  split
  · next above =>
      split
      · next below => rw [min_eq_left below, max_eq_right above]; rfl
      · next below => rw [min_eq_right (by omega), max_eq_right order]; rfl
  · next above => rw [min_eq_left (by omega), max_eq_left (by omega)]; rfl

/-- Sizes that differ only beyond the range of integers are clamped alike. -/
theorem saturated_congr {size other : Nat} (negative : Bool)
    (agree : min size (Nat.pow 2 31) = min other (Nat.pow 2 31)) :
    saturated (if negative then -size else size) =
      saturated (if negative then -other else other) := by
  have lowest := Int32.toInt_minValue
  have highest := Int32.toInt_maxValue
  have range : Nat.pow 2 31 = 2147483648 := rfl
  rw [range] at agree
  rw [saturated, saturated]
  congr 1
  cases negative <;> simp only [Bool.false_eq_true, if_true, if_false] <;> omega

namespace Double

variable {num den : Nat}

/-- A rounded ratio is cut to its whole part, which matters within the range of integers
only. -/
theorem toInt32_ofRatio {whole : Nat} (negative : Bool)
    (agree : min (roundSignificant num den / unit) (Nat.pow 2 31) = min whole (Nat.pow 2 31)) :
    (ofRatio negative num den).toInt32 = saturated (if negative then -whole else whole) := by
  rw [← saturated_congr negative agree, ofRatio]
  split
  · rw [saturated_eq_ofIntClamp]
    rfl
  · next beyond =>
      have large : Nat.pow 2 31 ≤ roundSignificant num den / unit := by
        have room (places : Nat) : Nat.pow 2 31 * Nat.pow 2 places ≤ Nat.pow 2 (places + 1024) :=
          Nat.le_trans (Nat.le_of_eq (Nat.pow_add 2 31 places).symm)
            (Nat.pow_le_pow_right (by decide) (by omega))
        have reached : Nat.pow 2 31 * unit ≤ overflow := by
          unfold unit overflow
          exact room quantumPlaces
        exact (Nat.le_div_iff_mul_le unit_pos).mpr
          (Nat.le_trans reached (Nat.le_of_not_lt beyond))
      have lowest := Int32.toInt_minValue
      have highest := Int32.toInt_maxValue
      have range : Nat.pow 2 31 = 2147483648 := rfl
      rw [range] at large
      apply Int32.toInt_inj.mp
      rw [toInt_saturated]
      cases negative with
      | false =>
          have toEnd : (infinite false).toInt32 = Int32.maxValue := rfl
          rw [toEnd]
          simp only [Bool.false_eq_true, if_false]
          omega
      | true =>
          have toEnd : (infinite true).toInt32 = Int32.minValue := rfl
          rw [toEnd]
          simp only [if_true]
          omega

/-- A whole number of units is cut to the whole number. -/
theorem toInt32_ofRatio_units (negative : Bool) (n : Nat) :
    (ofRatio negative (n * unit) 1).toInt32 = saturated (if negative then -n else n) :=
  toInt32_ofRatio negative (roundSignificant_units n)

theorem signed_natAbs (n : Int) :
    (if decide (n < 0) then -(n.natAbs : Int) else n.natAbs) = n := by
  simp only [decide_eq_true_eq]
  split <;> omega

@[simp] theorem toInt32_zero (negative : Bool) : (zero negative).toInt32 = 0 := by
  rw [zero, toInt32]
  simp only [Nat.zero_div]
  cases negative <;> rfl

theorem toInt32_ofInt (n : Int) : (ofInt n).toInt32 = saturated n := by
  rw [ofInt, toInt32_ofRatio_units, signed_natAbs]

/-! ### Arithmetic -/

/-- A whole number that a double can hold, as a double. -/
theorem ofInt_eq_finite {n : Int} (small : n.natAbs ≤ Nat.pow 2 53) :
    ofInt n = .finite (decide (n < 0)) ⟨n.natAbs * unit, representable_units small⟩ := by
  have held := ofRatio_exact (decide (n < 0))
    ⟨n.natAbs * unit, representable_units small⟩ Nat.one_pos
  rwa [Nat.mul_one] at held

theorem signed_units {n : Int} (representable : Representable (n.natAbs * unit)) :
    signed (decide (n < 0)) ⟨n.natAbs * unit, representable⟩ = n * unit := by
  have size := signed_natAbs n
  rw [signed, Int.natCast_mul, ← Int.neg_mul]
  split
  · next negative => rw [if_pos negative] at size; rw [size]
  · next positive => rw [if_neg positive] at size; rw [size]

theorem signed_not (negative : Bool) (magnitude : Magnitude) :
    signed (!negative) magnitude = -signed negative magnitude := by
  cases negative <;> simp [signed]

section Operations

variable {a b : Int} {s t : Bool} {m n : Magnitude}

theorem toInt32_add (left : signed s m = a * unit) (right : signed t n = b * unit) :
    (add (.finite s m) (.finite t n)).toInt32 = saturated (a + b) := by
  have sum : signed s m + signed t n = (a + b) * unit := by rw [left, right, Int.add_mul]
  have positive : (0 : Int) < unit := Int.natCast_pos.mpr unit_pos
  simp only [add, sum]
  split
  · next none =>
      have none : a + b = 0 := (Int.mul_eq_zero.mp none).resolve_right (Int.ne_of_gt positive)
      rw [none, toInt32_zero]
      rfl
  · have sign : ((a + b) * unit < 0) = (a + b < 0) :=
      propext ⟨fun negative => by nlinarith, fun negative => by nlinarith⟩
    simp only [sign, Int.natAbs_mul, Int.natAbs_natCast]
    exact toInt32_ofInt (a + b)

end Operations

/-! ### Signs -/

/-- A whole number is a size with a sign. -/
theorem exists_signed (n : Int) : ∃ (negative : Bool) (size : Nat),
    decide (n < 0) = negative ∧ n.natAbs = size ∧ n = if negative then -(size : Int) else size :=
  ⟨_, _, rfl, rfl, (signed_natAbs n).symm⟩

/-- The product of the sizes with the sign of a product is the product. -/
theorem signed_mul (a b : Int) :
    (if (decide (a < 0) != decide (b < 0)) = true then -((a.natAbs * b.natAbs : Nat) : Int)
      else (a.natAbs * b.natAbs : Nat)) = a * b := by
  obtain ⟨s, m, leftSign, leftSize, left⟩ := exists_signed a
  obtain ⟨t, n, rightSign, rightSize, right⟩ := exists_signed b
  rw [leftSign, rightSign, leftSize, rightSize, left, right]
  cases s <;> cases t <;> simp

/-- The quotient of the sizes with the sign of a product is the quotient cut to its whole
part. -/
theorem signed_div (a b : Int) :
    (if (decide (a < 0) != decide (b < 0)) = true then -((a.natAbs / b.natAbs : Nat) : Int)
      else (a.natAbs / b.natAbs : Nat)) = a.tdiv b := by
  obtain ⟨s, m, leftSign, leftSize, left⟩ := exists_signed a
  obtain ⟨t, n, rightSign, rightSize, right⟩ := exists_signed b
  rw [leftSign, rightSign, leftSize, rightSize, left, right]
  cases s <;> cases t <;> simp [Int.neg_tdiv, Int.tdiv_neg]

/-- The remainder of the sizes with the sign of the dividend is the remainder. -/
theorem signed_mod (a b : Int) :
    (if decide (a < 0) = true then -((a.natAbs % b.natAbs : Nat) : Int)
      else (a.natAbs % b.natAbs : Nat)) = a.tmod b := by
  obtain ⟨s, m, leftSign, leftSize, left⟩ := exists_signed a
  obtain ⟨t, n, rightSign, rightSize, right⟩ := exists_signed b
  rw [leftSign, leftSize, rightSize, left, right]
  cases s <;> cases t <;> simp [Int.neg_tmod, Int.tmod_neg, ← Int.ofNat_tmod]

/-! ### Operations -/

theorem toInt32_mul {a b : Int} (left : a.natAbs ≤ Nat.pow 2 53) (right : b.natAbs ≤ Nat.pow 2 53) :
    (mul (ofInt a) (ofInt b)).toInt32 = saturated (a * b) := by
  have same : a.natAbs * unit * (b.natAbs * unit) * 1 = a.natAbs * b.natAbs * unit * unit := by ring
  rw [ofInt_eq_finite left, ofInt_eq_finite right, mul,
    ofRatio_congr _ unit_pos Nat.one_pos same, toInt32_ofRatio_units, signed_mul]

theorem toInt32_div {a b : Int} (left : a.natAbs < Nat.pow 2 53) (right : b.natAbs < Nat.pow 2 53)
    (filled : b ≠ 0) : (div (ofInt a) (ofInt b)).toInt32 = saturated (a.tdiv b) := by
  have positive : 0 < b.natAbs := Int.natAbs_pos.mpr filled
  have divisor : b.natAbs * unit ≠ 0 := Nat.ne_of_gt (Nat.mul_pos positive unit_pos)
  have same : a.natAbs * unit * unit * b.natAbs = a.natAbs * unit * (b.natAbs * unit) := by ring
  have whole := congrArg (min · (Nat.pow 2 31)) (roundSignificant_div left right positive)
  rw [ofInt_eq_finite left.le, ofInt_eq_finite right.le, div, if_neg divisor,
    ofRatio_congr _ (Nat.mul_pos positive unit_pos) positive same, toInt32_ofRatio _ whole,
    signed_div]

theorem toInt32_rem {a b : Int} (left : a.natAbs ≤ Nat.pow 2 53) (right : b.natAbs ≤ Nat.pow 2 53)
    (filled : b ≠ 0) : (rem (ofInt a) (ofInt b)).toInt32 = saturated (a.tmod b) := by
  have positive : 0 < b.natAbs := Int.natAbs_pos.mpr filled
  have divisor : b.natAbs * unit ≠ 0 := Nat.ne_of_gt (Nat.mul_pos positive unit_pos)
  rw [ofInt_eq_finite left, ofInt_eq_finite right, rem, if_neg divisor, Nat.mul_mod_mul_right,
    toInt32_ofRatio_units, signed_mod]

/-- Nothing but the sign of the dividend is left of a quotient by zero. -/
theorem toInt32_div_zero {a : Int} (left : a.natAbs ≤ Nat.pow 2 53) :
    (div (ofInt a) (ofInt 0)).toInt32 =
      if 0 < a then Int32.maxValue else if a < 0 then Int32.minValue else 0 := by
  have nothing : (0 : Int).natAbs * unit = 0 := by rw [Int.natAbs_zero, Nat.zero_mul]
  have dividend : a.natAbs * unit = 0 ↔ a = 0 := by
    rw [Nat.mul_eq_zero, Int.natAbs_eq_zero]
    exact or_iff_left (Nat.ne_of_gt unit_pos)
  rw [ofInt_eq_finite left, ofInt_eq_finite (Nat.zero_le _), div, if_pos nothing]
  rcases Int.lt_trichotomy a 0 with negative | none | positive
  · have filled : ¬a.natAbs * unit = 0 := fun empty => negative.ne (dividend.mp empty)
    rw [if_neg filled, if_neg (Int.not_lt.mpr negative.le), if_pos negative]
    simp only [negative, decide_true, Int.lt_irrefl, decide_false]
    rfl
  · rw [if_pos (dividend.mpr none), none]
    rfl
  · have filled : ¬a.natAbs * unit = 0 := fun empty => positive.ne' (dividend.mp empty)
    rw [if_neg filled, if_pos positive]
    simp only [Int.not_lt.mpr positive.le, decide_false, Int.lt_irrefl]
    rfl

theorem toInt32_rem_zero {a : Int} (left : a.natAbs ≤ Nat.pow 2 53) :
    (rem (ofInt a) (ofInt 0)).toInt32 = 0 := by
  have nothing : (0 : Int).natAbs * unit = 0 := by rw [Int.natAbs_zero, Nat.zero_mul]
  rw [ofInt_eq_finite left, ofInt_eq_finite (Nat.zero_le _), rem, if_pos nothing]
  rfl

end Double

/-! ### Operators -/

/-- The result of an operator on whole numbers, as an integer of 32 bits: the exact one, clamped.
A quotient is cut to its whole part and a remainder has the sign of the dividend.  By zero the
quotient is as large as its sign allows, and the remainder is zero. -/
def Operator.onIntegers : Operator → Int → Int → Int32
  | .none, a, _ => saturated a
  | .plus, a, b => saturated (a + b)
  | .minus, a, b => saturated (a - b)
  | .times, a, b => saturated (a * b)
  | .divide, a, b =>
      if b ≠ 0 then saturated (a.tdiv b)
      else if 0 < a then Int32.maxValue
      else if a < 0 then Int32.minValue
      else 0
  | .modulo, a, b => if b ≠ 0 then saturated (a.tmod b) else 0

/-- Operators on whole numbers that doubles can hold are exact up to clamping. -/
theorem Double.toInt32_apply {a b : Int} (operator : Operator) (left : a.natAbs < Nat.pow 2 53)
    (right : b.natAbs < Nat.pow 2 53) :
    (operator.apply (.ofInt a) (.ofInt b)).toInt32 = operator.onIntegers a b := by
  cases operator with
  | none => exact toInt32_ofInt a
  | plus =>
      rw [Operator.apply, ofInt_eq_finite left.le, ofInt_eq_finite right.le]
      exact toInt32_add (signed_units _) (signed_units _)
  | minus =>
      rw [Operator.apply, sub, ofInt_eq_finite left.le, ofInt_eq_finite right.le, neg]
      refine toInt32_add (signed_units _) ?_
      rw [signed_not, signed_units, Int.neg_mul]
  | times =>
      rw [Operator.apply, Operator.onIntegers]
      exact toInt32_mul left.le right.le
  | divide =>
      rw [Operator.apply, Operator.onIntegers]
      split
      · next filled => exact toInt32_div left right filled
      · next zero =>
          rw [Decidable.not_not.mp zero]
          exact toInt32_div_zero left.le
  | modulo =>
      rw [Operator.apply, Operator.onIntegers]
      split
      · next filled => exact toInt32_rem left.le right.le filled
      · next zero =>
          rw [Decidable.not_not.mp zero]
          exact toInt32_rem_zero left.le

/-! ### Values -/

namespace Scalar

/-- The whole number that a value counts as: an integer as itself, a character as its codepoint
and a truth value as one or zero. -/
def integer? : Scalar → Option Int
  | .int value => some value.toInt
  | .char value => some value.toNat
  | .bool value => some (if value then 1 else 0)
  | .double _ => none
  | .string _ => none

variable {left right : Scalar} {a b : Int}

/-- Doubles hold all of these whole numbers. -/
theorem natAbs_lt_of_integer? {value : Scalar} {n : Int} (counts : value.integer? = some n) :
    n.natAbs < Nat.pow 2 53 := by
  have range : Nat.pow 2 53 = 9007199254740992 := rfl
  rw [range]
  cases value with
  | int value =>
      cases counts
      have lowest := value.minValue_le_toInt
      have highest := value.toInt_le
      rw [Int32.toInt_minValue] at lowest
      rw [Int32.toInt_maxValue] at highest
      omega
  | char value =>
      cases counts
      have valid := value.valid
      have codepoint : value.toNat < 1114112 := by
        rcases valid with low | ⟨_, high⟩
        · exact Nat.lt_trans low (by decide)
        · exact high
      omega
  | bool value => cases counts; cases value <;> decide
  | double => cases counts
  | string => cases counts

/-- A codepoint that is that of a character gives the character, and any other is reported. -/
theorem ofCodepoint_eq (codepoint : Int32) :
    (∀ c : Char, ofCodepoint codepoint = .ok (.char c) ↔ (c.toNat : Int) = codepoint.toInt) ∧
      (ofCodepoint codepoint = .error (.invalidCodepoint codepoint) ↔
        ∀ c : Char, (c.toNat : Int) ≠ codepoint.toInt) := by
  rw [ofCodepoint]
  by_cases valid : 0 ≤ codepoint.toInt ∧ codepoint.toInt.toNat.isValidChar
  · have place : ((Char.ofNatAux codepoint.toInt.toNat valid.2).toNat : Int) = codepoint.toInt :=
      Int.toNat_of_nonneg valid.1
    rw [dif_pos valid]
    generalize Char.ofNatAux codepoint.toInt.toNat valid.2 = found at place ⊢
    constructor
    · intro c
      rw [Except.ok.injEq, Scalar.char.injEq, ← place, Int.ofNat_inj]
      constructor
      · rintro rfl
        rfl
      · intro same
        exact (Char.toNat_inj.mp same).symm
    · constructor
      · intro impossible
        cases impossible
      · intro none
        exact absurd place (none _)
  · have none (c : Char) : (c.toNat : Int) ≠ codepoint.toInt := by
      intro same
      apply valid
      rw [← same, Int.toNat_natCast]
      exact ⟨Int.natCast_nonneg _, c.valid⟩
    rw [dif_neg valid]
    constructor
    · intro c
      constructor
      · intro impossible
        cases impossible
      · intro same
        exact absurd same (none c)
    · exact ⟨fun _ => none, fun _ => rfl⟩

/-- Two whole numbers, of which one is an integer, are combined to an integer, or to a character
if the left one is a character. -/
theorem combine_of_integers (operator : Operator) (leftCounts : left.integer? = some a)
    (rightCounts : right.integer? = some b)
    (pair : left.kind = .integer ∨ right.kind = .integer) :
    left.combine right operator =
      if left.kind = .character then ofCodepoint (operator.onIntegers a b)
      else .ok (.int (operator.onIntegers a b)) := by
  have computed := Double.toInt32_apply operator (natAbs_lt_of_integer? leftCounts)
    (natAbs_lt_of_integer? rightCounts)
  cases left with
  | int value =>
      cases leftCounts
      cases right with
      | int => cases rightCounts; rw [← computed]; rfl
      | char => cases rightCounts; rw [← computed]; rfl
      | bool => cases rightCounts; rw [← computed]; rfl
      | double => cases rightCounts
      | string => cases rightCounts
  | char value =>
      obtain other | isInteger := pair
      · cases other
      · cases right <;> cases isInteger
        cases leftCounts
        cases rightCounts
        rw [← computed]
        rfl
  | bool value =>
      obtain other | isInteger := pair
      · cases other
      · cases right <;> cases isInteger
        cases leftCounts
        cases rightCounts
        rw [← computed]
        rfl
  | double => cases leftCounts
  | string => cases leftCounts

/-- An accumulated value takes in a whole number exactly, if both count as whole numbers and one
of them is an integer: the result is that of the operator on whole numbers, clamped to 32 bits.
If the accumulated value is a character, the result is the character of that codepoint, and it is
an error that carries the codepoint exactly if no character has it. -/
theorem absorb_of_integers (operator : Operator) (leftCounts : left.integer? = some a)
    (rightCounts : right.integer? = some b)
    (pair : left.kind = .integer ∨ right.kind = .integer) :
    (left.kind ≠ .character →
      absorb (some left) (some right) operator = .ok (some (.int (operator.onIntegers a b)))) ∧
    (left.kind = .character →
      (∀ c : Char, absorb (some left) (some right) operator = .ok (some (.char c)) ↔
        (c.toNat : Int) = (operator.onIntegers a b).toInt) ∧
      (absorb (some left) (some right) operator =
          .error (.invalidCodepoint (operator.onIntegers a b)) ↔
        ∀ c : Char, (c.toNat : Int) ≠ (operator.onIntegers a b).toInt)) := by
  rw [absorb_some, combine_of_integers operator leftCounts rightCounts pair]
  constructor
  · intro other
    rw [if_neg other]
    rfl
  · intro character
    rw [if_pos character]
    obtain ⟨found, reported⟩ := ofCodepoint_eq (operator.onIntegers a b)
    constructor
    · intro c
      rw [← found c]
      cases ofCodepoint (operator.onIntegers a b) <;> simp [Except.map]
    · rw [← reported]
      cases ofCodepoint (operator.onIntegers a b) <;> simp [Except.map]

/-- The lowest integer divided by minus one is clamped, and the number behind the codepoint of
`U+D7FF` is that of no character. -/
theorem absorb_at_the_ends :
    absorb (some (.int Int32.minValue)) (some (.int (-1))) .divide =
        .ok (some (.int Int32.maxValue)) ∧
      absorb (some (.char (Char.ofNat 0xD7FF))) (some (.int 1)) .plus =
        .error (.invalidCodepoint 0xD800) := by
  constructor
  · have lowest : integer? (.int Int32.minValue) = some Int32.minValue.toInt := rfl
    have minusOne : integer? (.int (-1)) = some (-1) := rfl
    exact (absorb_of_integers .divide lowest minusOne (Or.inl rfl)).1 nofun
  · have last : integer? (.char (Char.ofNat 0xD7FF)) = some 0xD7FF := rfl
    have one : integer? (.int 1) = some 1 := rfl
    have shifted := absorb_of_integers .plus last one (Or.inr rfl)
    have none (c : Char) : (c.toNat : Int) ≠ (0xD800 : Int32).toInt := by
      have codepoint : (0xD800 : Int32).toInt = 0xD800 := rfl
      have valid : c.toNat < 0xD800 ∨ 0xDFFF < c.toNat ∧ c.toNat < 0x110000 := c.valid
      omega
    exact (shifted.2 rfl).2.mpr none

end Scalar

end Letterline
