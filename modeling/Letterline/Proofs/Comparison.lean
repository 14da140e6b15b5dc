/-
Module: Letterline.Proofs.Comparison
Purpose: Values of one kind compare in one order, which is the same from both sides.
Trusted boundary: none
Main exports:
  Comparator.existsUnique_holdsAt, Comparator.holds_ofInt, Scalar.compare_of_integers,
  Scalar.ComparesLike, Scalar.compare_coherent
-/
import Letterline.Proofs.IntegerArithmetic
import Letterline.Scalar.Comparison

namespace Letterline

/-!
Values that are not strings are compared by the numbers that they count as.  Integers, truth
values and characters count as whole numbers which doubles hold exactly, so no two of a kind fall
together, and each kind compares as it is ordered itself.
-/

/-! ### Comparators -/

namespace Comparator

/-- On the number line, counting in larger units changes no comparison. -/
theorem holdsAt_mul_right {size : Int} (positive : 0 < size) (comparator : Comparator)
    (x y : Int) : comparator.holdsAt (x * size) (y * size) = comparator.holdsAt x y := by
  have same : x * size = y * size ↔ x = y := Int.mul_eq_mul_right_iff positive.ne'
  cases comparator with
  | equal => exact decide_eq_decide.mpr same
  | notEqual => exact congrArg not (decide_eq_decide.mpr same)
  | greater | less => exact decide_eq_decide.mpr (Int.mul_lt_mul_right positive)
  | greaterOrEqual | lessOrEqual => exact decide_eq_decide.mpr (Int.mul_le_mul_right positive)

/-- Of two places on the number line, the first is below the other, equal to it or above it. -/
theorem existsUnique_holdsAt (x y : Int) :
    ∃! comparator, comparator ∈ [less, equal, greater] ∧ comparator.holdsAt x y = true := by
  have decided (verdict : Comparator) (member : verdict ∈ [less, equal, greater])
      (only : ∀ other ∈ [less, equal, greater], other.holdsAt x y = true ↔ other = verdict) :
      ∃! comparator, comparator ∈ [less, equal, greater] ∧ comparator.holdsAt x y = true :=
    ⟨verdict, ⟨member, (only verdict member).mpr rfl⟩, fun other evidence =>
      (only other evidence.1).mp evidence.2⟩
  rcases lt_trichotomy x y with below | rfl | above
  · exact decided .less (by decide) (by simp [holdsAt, below, below.ne, below.le])
  · exact decided .equal (by decide) (by simp [holdsAt])
  · exact decided .greater (by decide) (by simp [holdsAt, above, above.ne', above.le])

theorem holdsAt_lessOrEqual (x y : Int) : lessOrEqual.holdsAt x y = !greater.holdsAt x y := by
  rw [holdsAt, holdsAt, ← decide_not, decide_eq_decide, not_lt]

theorem holdsAt_greaterOrEqual (x y : Int) : greaterOrEqual.holdsAt x y = !less.holdsAt x y :=
  holdsAt_lessOrEqual y x

end Comparator

theorem Double.place_ofInt {n : Int} (small : n.natAbs ≤ Nat.pow 2 53) :
    (ofInt n).place? = some (n * unit) := by
  rw [ofInt_eq_finite small, place?, signed_units]

/-- Whole numbers that doubles can hold are compared exactly. -/
theorem Comparator.holds_ofInt {a b : Int} (comparator : Comparator)
    (left : a.natAbs ≤ Nat.pow 2 53) (right : b.natAbs ≤ Nat.pow 2 53) :
    comparator.holds (.ofInt a) (.ofInt b) = comparator.holdsAt a b := by
  have positive : (0 : Int) < Double.unit := Int.natCast_pos.mpr Double.unit_pos
  rw [holds, Double.place_ofInt left, Double.place_ofInt right]
  exact comparator.holdsAt_mul_right positive a b

/-! ### Comparing two values -/

namespace Scalar

variable {left right : Scalar}

/-- Outcomes that are the same but for their errors fail together and agree where they do not. -/
theorem agree_of_toOption {first second : Except RuntimeError Bool}
    (same : second.toOption = first.toOption) :
    ((∃ error, first = .error error) ↔ ∃ error, second = .error error) ∧
      ∀ truth, first = .ok truth ↔ second = .ok truth := by
  cases first <;> cases second <;> cases same <;> simp

/-! ### Whole numbers -/

theorem number?_of_integer? {value : Scalar} {n : Int} (counts : value.integer? = some n) :
    value.number? = some (.ofInt n) := by
  cases value with
  | int | char => cases counts; rfl
  | bool truth => cases counts; rfl
  | double | string => cases counts

/-- Values of one kind that count as whole numbers compare as these do. -/
theorem compare_of_integers {a b : Int} (alike : left.kind = right.kind)
    (leftCounts : left.integer? = some a) (rightCounts : right.integer? = some b)
    (comparator : Comparator) : left.compare comparator right = .ok (comparator.holdsAt a b) := by
  rw [compare_of_numbers alike (number?_of_integer? leftCounts) (number?_of_integer? rightCounts),
    comparator.holds_ofInt (natAbs_lt_of_integer? leftCounts).le
      (natAbs_lt_of_integer? rightCounts).le]

/-- Two members of an ordered type, as values, compare as they do themselves: one is below the
other, above it or equal to it, and the other three comparators deny one of these. -/
structure ComparesLike {α : Type} [LT α] [DecidableLT α] [DecidableEq α] (value : α → Scalar)
    (x y : α) : Prop where
  less : (value x).compare .less (value y) = .ok (decide (x < y))
  equal : (value x).compare .equal (value y) = .ok (decide (x = y))
  greater : (value x).compare .greater (value y) = .ok (decide (y < x))
  oneOfThree : ∃! comparator, comparator ∈ [Comparator.less, .equal, .greater] ∧
    (value x).compare comparator (value y) = .ok true
  notEqual : (value x).compare .notEqual (value y) =
    ((value x).compare .equal (value y)).map not
  lessOrEqual : (value x).compare .lessOrEqual (value y) =
    ((value x).compare .greater (value y)).map not
  greaterOrEqual : (value x).compare .greaterOrEqual (value y) =
    ((value x).compare .less (value y)).map not

/-- Values that count as whole numbers compare like what they are made from, if the numbers lie in
its order. -/
theorem comparesLike_of_integers {α : Type} [LT α] [DecidableLT α] [DecidableEq α]
    {value : α → Scalar} {number : α → Int} (alike : ∀ x y, (value x).kind = (value y).kind)
    (counts : ∀ x, (value x).integer? = some (number x))
    (inOrder : ∀ x y, x < y ↔ number x < number y) (injective : Function.Injective number)
    (x y : α) : ComparesLike value x y := by
  have compares := compare_of_integers (alike x y) (counts x) (counts y)
  have same : x = y ↔ number x = number y := injective.eq_iff.symm
  refine ⟨?less, ?equal, ?greater, ?oneOfThree, ?notEqual, ?lessOrEqual, ?greaterOrEqual⟩
  case less => rw [compares, decide_eq_decide.mpr (inOrder x y)]; rfl
  case equal => rw [compares, decide_eq_decide.mpr same]; rfl
  case greater => rw [compares, decide_eq_decide.mpr (inOrder y x)]; rfl
  case oneOfThree =>
    simp only [compares, Except.ok.injEq]
    exact Comparator.existsUnique_holdsAt _ _
  case notEqual => rw [compares, compares]; rfl
  case lessOrEqual => rw [compares, compares, Comparator.holdsAt_lessOrEqual]; rfl
  case greaterOrEqual => rw [compares, compares, Comparator.holdsAt_greaterOrEqual]; rfl

/-- Comparing is one order, looked at in six ways.  Integers, truth values and characters compare
as they lie in their own orders.  Any two values compare alike from both sides, and a comparison
fails exactly if the values are of two kinds or if two strings are to be ordered. -/
theorem compare_coherent :
    (∀ x y : Int32, ComparesLike int x y) ∧
    (∀ x y : Bool, ComparesLike bool x y) ∧
    (∀ x y : Char, ComparesLike char x y) ∧
    ∀ (left right : Scalar) (comparator : Comparator),
      ((∃ error, left.compare comparator right = .error error) ↔
        ∃ error, right.compare comparator.mirrored left = .error error) ∧
      (∀ truth, left.compare comparator right = .ok truth ↔
        right.compare comparator.mirrored left = .ok truth) ∧
      ∀ error, left.compare comparator right = .error error ↔
        left.kind ≠ right.kind ∧ error = .typeMismatch left.kind right.kind ∨
        left.kind = .string ∧ right.kind = .string ∧ comparator.isOrdering ∧
          error = .stringComparison comparator := by
  refine ⟨?integers, ?truths, ?characters, fun left right comparator => ?mirrored⟩
  case integers =>
    refine comparesLike_of_integers (fun _ _ => rfl) (fun _ => rfl) (fun _ _ => ?_) ?_
    · exact Int32.lt_iff_toInt_lt
    · exact fun _ _ => Int32.toInt_inj.mp
  case truths =>
    refine comparesLike_of_integers (fun _ _ => rfl) (fun _ => rfl) (by decide) ?_
    exact show ∀ x y : Bool, _ → x = y by decide
  case characters =>
    refine comparesLike_of_integers (fun _ _ => rfl) (fun _ => rfl) (fun _ _ => ?_) ?_
    · exact Int.ofNat_lt.symm
    · exact fun _ _ same => Char.toNat_inj.mp (Int.ofNat_inj.mp same)
  case mirrored =>
    obtain ⟨fails, agrees⟩ := agree_of_toOption (toOption_compare_mirrored left right comparator)
    exact ⟨fails, agrees, fun _ => compare_eq_error_iff⟩

end Scalar

end Letterline
