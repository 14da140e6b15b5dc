/-
Module: Letterline.Scalar.Comparison
Purpose: Comparing two numbers and two values, also from the other side.
Trusted boundary: none
Main exports:
  Comparator.holds, Comparator.mirrored, Comparator.isOrdering, Scalar.compare,
  Scalar.compare_of_numbers, Scalar.compare_eq_error_iff, Scalar.toOption_compare_mirrored
-/
import Letterline.RuntimeError

namespace Letterline

/-!
There are three ways for two values to be compared.  Values of two kinds are not.
Strings are compared as texts, and only for being equal.  All other values are
compared by the numbers that they count as.
-/

/-! ### Comparators -/

namespace Comparator

/-- Whether a comparison of places on the number line holds. -/
def holdsAt : Comparator → Int → Int → Bool
  | .equal, x, y => x == y
  | .notEqual, x, y => x != y
  | .greater, x, y => decide (y < x)
  | .greaterOrEqual, x, y => decide (y ≤ x)
  | .less, x, y => decide (x < y)
  | .lessOrEqual, x, y => decide (x ≤ y)

/-- Whether a comparison of numbers holds.  NaN is unequal to everything and in
order with nothing. -/
def holds (comparator : Comparator) (x y : Double) : Bool :=
  match x.place?, y.place? with
  | some a, some b => comparator.holdsAt a b
  | _, _ => comparator == .notEqual

/-- The comparator that says the same of two values when they change sides. -/
def mirrored : Comparator → Comparator
  | .equal => .equal
  | .notEqual => .notEqual
  | .greater => .less
  | .greaterOrEqual => .lessOrEqual
  | .less => .greater
  | .lessOrEqual => .greaterOrEqual

/-- Says whether a comparator asks for an order, and not only for equality. -/
def isOrdering : Comparator → Bool
  | .equal | .notEqual => false
  | .greater | .greaterOrEqual | .less | .lessOrEqual => true

theorem holdsAt_mirrored (comparator : Comparator) (x y : Int) :
    comparator.mirrored.holdsAt y x = comparator.holdsAt x y := by
  cases comparator with
  | equal => exact BEq.comm
  | notEqual => exact bne_comm
  | greater | greaterOrEqual | less | lessOrEqual => rfl

/-- A comparison of numbers can be read from both sides, also where one of them is NaN. -/
theorem holds_mirrored (comparator : Comparator) (x y : Double) :
    comparator.mirrored.holds y x = comparator.holds x y := by
  rw [holds, holds]
  cases x.place? with
  | none => cases y.place? <;> cases comparator <;> rfl
  | some a =>
      cases y.place? with
      | none => cases comparator <;> rfl
      | some b => exact comparator.holdsAt_mirrored a b

end Comparator

/-! ### Comparing two values -/

namespace Scalar

/-- Compares two values of one kind.  Strings are equal or not; all other values
compare by the numbers they count as. -/
def compare (left : Scalar) (comparator : Comparator) (right : Scalar) :
    Except RuntimeError Bool :=
  if left.kind ≠ right.kind then
    .error (.typeMismatch left.kind right.kind)
  else
    match left, right with
    | .string a, .string b =>
        match comparator with
        | .equal => .ok (a == b)
        | .notEqual => .ok (a != b)
        | other => .error (.stringComparison other)
    | left, right =>
        match left.number?, right.number? with
        | some a, some b => .ok (comparator.holds a b)
        | _, _ => .error (.typeMismatch left.kind right.kind)

variable {left right : Scalar}

/-- Values of two kinds do not compare. -/
theorem compare_of_kind_ne (differ : left.kind ≠ right.kind) (comparator : Comparator) :
    left.compare comparator right = .error (.typeMismatch left.kind right.kind) := by
  unfold compare
  exact if_pos differ

/-- Values of one kind that count as numbers compare as these do. -/
theorem compare_of_numbers {a b : Double} (alike : left.kind = right.kind)
    (leftCounts : left.number? = some a) (rightCounts : right.number? = some b)
    (comparator : Comparator) : left.compare comparator right = .ok (comparator.holds a b) := by
  unfold compare
  rw [if_neg (not_not_intro alike)]
  split
  · cases leftCounts
  · rw [leftCounts, rightCounts]

/-- Strings have no order. -/
theorem compare_string_of_isOrdering {comparator : Comparator} (ordering : comparator.isOrdering)
    (a b : String) :
    (string a).compare comparator (string b) = .error (.stringComparison comparator) := by
  cases comparator with
  | equal | notEqual => cases ordering
  | greater | greaterOrEqual | less | lessOrEqual => rfl

/-- The three ways for two values to be compared. -/
theorem kind_ne_or_strings_or_numbers (left right : Scalar) :
    left.kind ≠ right.kind ∨ (∃ a b, left = string a ∧ right = string b) ∨
      left.kind = right.kind ∧ ∃ a b, left.number? = some a ∧ right.number? = some b := by
  by_cases alike : left.kind = right.kind
  · cases left with
    | string a =>
        cases right with
        | string b => exact .inr (.inl ⟨a, b, rfl, rfl⟩)
        | int | double | bool | char => cases alike
    | int | double | bool | char =>
        cases right with
        | string b => cases alike
        | int | double | bool | char => exact .inr (.inr ⟨alike, _, _, rfl, rfl⟩)
  · exact .inl alike

theorem kind_ne_string_of_number? {value : Scalar} {number : Double}
    (counts : value.number? = some number) : value.kind ≠ .string := by
  cases value with
  | string text => cases counts
  | int | double | bool | char => nofun

/-- A comparison fails where the kinds differ and where strings are to be ordered, and the error
says which of them it was. -/
theorem compare_eq_error_iff {comparator : Comparator} {error : RuntimeError} :
    left.compare comparator right = .error error ↔
      left.kind ≠ right.kind ∧ error = .typeMismatch left.kind right.kind ∨
      left.kind = .string ∧ right.kind = .string ∧ comparator.isOrdering ∧
        error = .stringComparison comparator := by
  rcases kind_ne_or_strings_or_numbers left right with
    differ | ⟨a, b, rfl, rfl⟩ | ⟨alike, a, b, leftCounts, rightCounts⟩
  · rw [compare_of_kind_ne differ, Except.error.injEq, eq_comm]
    constructor
    · intro same
      exact .inl ⟨differ, same⟩
    · rintro (⟨-, same⟩ | ⟨isString, isStringToo, -⟩)
      · exact same
      · exact absurd (isString.trans isStringToo.symm) differ
  · cases ordering : comparator.isOrdering with
    | true =>
        rw [compare_string_of_isOrdering ordering]
        simp [kind, eq_comm]
    | false =>
        cases comparator <;> cases ordering <;> simp [compare, kind]
  · rw [compare_of_numbers alike leftCounts rightCounts]
    constructor
    · nofun
    · rintro (⟨differ, -⟩ | ⟨isString, -⟩)
      · exact absurd alike differ
      · exact absurd isString (kind_ne_string_of_number? leftCounts)

/-- A comparison can be read from both sides: either both readings fail or they agree. -/
theorem toOption_compare_mirrored (left right : Scalar) (comparator : Comparator) :
    (right.compare comparator.mirrored left).toOption =
      (left.compare comparator right).toOption := by
  rcases kind_ne_or_strings_or_numbers left right with
    differ | ⟨a, b, rfl, rfl⟩ | ⟨alike, a, b, leftCounts, rightCounts⟩
  · rw [compare_of_kind_ne differ, compare_of_kind_ne differ.symm]
    rfl
  · cases comparator with
    | equal => exact congrArg some BEq.comm
    | notEqual => exact congrArg some bne_comm
    | greater | greaterOrEqual | less | lessOrEqual => rfl
  · rw [compare_of_numbers alike leftCounts rightCounts,
      compare_of_numbers alike.symm rightCounts leftCounts, comparator.holds_mirrored]

end Scalar

end Letterline
