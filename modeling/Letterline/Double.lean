/-
Module: Letterline.Double
Purpose: Double-precision numbers as exact integers, with correct rounding.
Trusted boundary: none
Main exports:
  Double, Double.Representable, Double.ofRatio, Double.ofInt, Double.add,
  Double.mul, Double.div, Double.rem, Double.toInt32
-/

namespace Letterline

/-!
A double is held exactly.  Every finite double is a whole number of *quanta* of
`2 ^ (-1074)`, the smallest positive double, so arithmetic is arithmetic of
natural numbers followed by one rounding.  A quotient of quanta is rounded to
fifty-three significant binary digits, a half going to the even neighbour, and
what then reaches `2 ^ 1024` is infinite.

There is one NaN and it has no sign.
-/

namespace Double

/-- The number of binary places of a quantum. -/
def quantumPlaces : Nat := 1074

/-- One, in quanta. -/
def unit : Nat := Nat.pow 2 quantumPlaces

/-- The first number of quanta that no finite double reaches. -/
def overflow : Nat := Nat.pow 2 (quantumPlaces + 1024)

/-- A number of quanta is representable when it is below overflow and only its
first fifty-three binary digits may be other than zero. -/
def Representable (quanta : Nat) : Prop :=
  quanta < overflow ∧ Nat.pow 2 (quanta.log2 - 52) ∣ quanta

instance (quanta : Nat) : Decidable (Representable quanta) := by
  unfold Representable
  infer_instance

/-- A representable number of quanta. -/
structure Magnitude where
  quanta : Nat
  representable : Representable quanta
deriving DecidableEq

end Double

/-- A double-precision number. -/
inductive Double where
  | nan
  | infinite (negative : Bool)
  | finite (negative : Bool) (magnitude : Double.Magnitude)
deriving DecidableEq

namespace Double

/-! ### Rounding -/

/-- The whole number nearest to `num / den`, a half going to the even one. -/
def nearestEven (num den : Nat) : Nat :=
  let floor := num / den
  let rest := num % den
  if 2 * rest < den then floor
  else if den < 2 * rest then floor + 1
  else floor + floor % 2

/-- How many low binary digits of the whole part of `num / den` lie beyond the
first fifty-three. -/
def spareDigits (num den : Nat) : Nat :=
  (num / den).log2 - 52

/-- Rounds `num / den` to fifty-three significant binary digits, and never finer
than a whole number. -/
def roundSignificant (num den : Nat) : Nat :=
  let scale := Nat.pow 2 (spareDigits num den)
  nearestEven num (den * scale) * scale

theorem nearestEven_le (num den : Nat) : nearestEven num den ≤ num / den + 1 := by
  have parity : num / den % 2 < 2 := Nat.mod_lt _ (by decide)
  simp only [nearestEven]
  split
  · omega
  · split <;> omega

theorem nearestEven_spare_le (num den : Nat) :
    nearestEven num (den * Nat.pow 2 (spareDigits num den)) ≤ Nat.pow 2 53 := by
  refine Nat.le_trans (nearestEven_le _ _) ?_
  rw [← Nat.div_div_eq_div_mul]
  have bound : num / den / Nat.pow 2 (spareDigits num den) < Nat.pow 2 53 := by
    refine (Nat.div_lt_iff_lt_mul (Nat.two_pow_pos _)).mpr ?_
    refine Nat.lt_of_lt_of_le (Nat.lt_log2_self (n := num / den)) ?_
    refine Nat.le_trans (Nat.pow_le_pow_right (by decide) ?_) (Nat.le_of_eq (Nat.pow_add 2 53 _))
    unfold spareDigits
    omega
  exact bound

/-- A multiple of `2 ^ shift` by at most `2 ^ 53` has only zero digits after its
first fifty-three. -/
theorem significant_dvd {factor shift : Nat} (bound : factor ≤ Nat.pow 2 53) :
    Nat.pow 2 ((factor * Nat.pow 2 shift).log2 - 52) ∣ factor * Nat.pow 2 shift := by
  by_cases zero : factor = 0
  · simp [zero]
  · have positive : factor * Nat.pow 2 shift ≠ 0 :=
      Nat.mul_ne_zero zero (Nat.ne_of_gt (Nat.two_pow_pos _))
    by_cases top : factor = Nat.pow 2 53
    · subst top
      have whole : Nat.pow 2 53 * Nat.pow 2 shift = Nat.pow 2 (53 + shift) :=
        (Nat.pow_add 2 53 shift).symm
      have length : (Nat.pow 2 (53 + shift)).log2 = 53 + shift := Nat.log2_two_pow
      rw [whole, length]
      exact Nat.pow_dvd_pow 2 (by omega)
    · refine Nat.dvd_trans (Nat.pow_dvd_pow 2 ?_) (Nat.dvd_mul_left _ factor)
      have small : factor * Nat.pow 2 shift < Nat.pow 2 (53 + shift) :=
        Nat.lt_of_lt_of_eq
          (Nat.mul_lt_mul_of_pos_right (Nat.lt_of_le_of_ne bound top) (Nat.two_pow_pos _))
          (Nat.pow_add 2 53 shift).symm
      have := (Nat.log2_lt positive).mpr small
      omega

theorem roundSignificant_representable {num den : Nat}
    (finite : roundSignificant num den < overflow) :
    Representable (roundSignificant num den) :=
  ⟨finite, significant_dvd (nearestEven_spare_le num den)⟩

/-- The double nearest to `num / den` quanta. -/
def ofRatio (negative : Bool) (num den : Nat) : Double :=
  if finite : roundSignificant num den < overflow then
    .finite negative ⟨roundSignificant num den, roundSignificant_representable finite⟩
  else
    .infinite negative

/-- The double nearest to a whole number. -/
def ofInt (n : Int) : Double :=
  ofRatio (decide (n < 0)) (n.natAbs * unit) 1

theorem pow_two_pos (exponent : Nat) : 0 < Nat.pow 2 exponent :=
  Nat.two_pow_pos exponent

theorem overflow_pos : 0 < overflow := by
  unfold overflow
  exact pow_two_pos _

theorem representable_zero : Representable 0 :=
  ⟨overflow_pos, Nat.dvd_zero _⟩

/-- Zero, with a sign. -/
def zero (negative : Bool) : Double :=
  .finite negative ⟨0, representable_zero⟩

/-! ### Arithmetic -/

/-- The magnitude of a finite double with its sign, in quanta. -/
def signed (negative : Bool) (magnitude : Magnitude) : Int :=
  if negative then -(magnitude.quanta : Int) else magnitude.quanta

/-- Changes the sign. -/
def neg : Double → Double
  | .nan => .nan
  | .infinite negative => .infinite (!negative)
  | .finite negative magnitude => .finite (!negative) magnitude

/-- Sum.  An exact zero is negative only if both terms are. -/
def add : Double → Double → Double
  | .nan, _ => .nan
  | _, .nan => .nan
  | .infinite a, .infinite b => if a = b then .infinite a else .nan
  | .infinite a, .finite _ _ => .infinite a
  | .finite _ _, .infinite b => .infinite b
  | .finite a m, .finite b n =>
      let sum := signed a m + signed b n
      if sum = 0 then zero (a && b)
      else ofRatio (decide (sum < 0)) sum.natAbs 1

/-- Difference. -/
def sub (x y : Double) : Double :=
  add x (neg y)

/-- Product. -/
def mul : Double → Double → Double
  | .nan, _ => .nan
  | _, .nan => .nan
  | .infinite a, .infinite b => .infinite (a != b)
  | .infinite a, .finite b n => if n.quanta = 0 then .nan else .infinite (a != b)
  | .finite a m, .infinite b => if m.quanta = 0 then .nan else .infinite (a != b)
  | .finite a m, .finite b n => ofRatio (a != b) (m.quanta * n.quanta) unit

/-- Quotient. -/
def div : Double → Double → Double
  | .nan, _ => .nan
  | _, .nan => .nan
  | .infinite _, .infinite _ => .nan
  | .infinite a, .finite b _ => .infinite (a != b)
  | .finite a _, .infinite b => zero (a != b)
  | .finite a m, .finite b n =>
      if n.quanta = 0 then
        if m.quanta = 0 then .nan else .infinite (a != b)
      else
        ofRatio (a != b) (m.quanta * unit) n.quanta

/-- Remainder of the division that truncates toward zero.  It is exact and has
the sign of the dividend. -/
def rem : Double → Double → Double
  | .nan, _ => .nan
  | _, .nan => .nan
  | .infinite _, _ => .nan
  | .finite a m, .infinite _ => .finite a m
  | .finite a m, .finite _ n =>
      if n.quanta = 0 then .nan else ofRatio a (m.quanta % n.quanta) 1

/-! ### Order and narrowing -/

/-- The place of a double in the order of the number line, in quanta.  An
infinity stands at the overflow threshold.  NaN has no place, and both zeros
have the same one. -/
def place? : Double → Option Int
  | .nan => none
  | .infinite negative => some (if negative then -(overflow : Int) else overflow)
  | .finite negative magnitude => some (signed negative magnitude)

/-- The 32-bit integer left when the fraction is dropped and the result is
clamped.  NaN becomes zero. -/
def toInt32 : Double → Int32
  | .nan => 0
  | .infinite negative => if negative then Int32.minValue else Int32.maxValue
  | .finite negative magnitude =>
      let whole : Int := (magnitude.quanta / unit : Nat)
      Int32.ofIntClamp (if negative then -whole else whole)

end Double

end Letterline
