/-
Module: Letterline.Scalar.Combination
Purpose: Combining two values under an arithmetic operator.
Trusted boundary: none
Main exports:
  Scalar.combine, Scalar.absorb
-/
import Letterline.RuntimeError

namespace Letterline.Scalar

/-!
Arithmetic runs in double precision, whatever the kinds of the values.  The kind of
the left value decides what becomes of the result: integers and booleans narrow it
to an integer unless a double takes part, and a character takes it for a codepoint.
Every pair with a string, and two characters, can only be concatenated.
-/

/-- Joins the texts of two values, which only `+` does. -/
def concatenate (left right : Scalar) (operator : Operator) : Except RuntimeError Scalar :=
  if operator = .plus then
    .ok (.string (left.text ++ right.text))
  else
    .error (.unsupportedOperation left.kind right.kind operator)

/-- The character with a codepoint. -/
def ofCodepoint (codepoint : Int32) : Except RuntimeError Scalar :=
  if valid : 0 ≤ codepoint.toInt ∧ codepoint.toInt.toNat.isValidChar then
    .ok (.char (Char.ofNatAux codepoint.toInt.toNat valid.2))
  else
    .error (.invalidCodepoint codepoint)

/-- The value of two computed values under an operator. -/
def combine (left right : Scalar) (operator : Operator) : Except RuntimeError Scalar :=
  match left, right with
  | .int a, .int b => .ok (.int (operator.apply (.ofInt32 a) (.ofInt32 b)).toInt32)
  | .int a, .double b => .ok (.double (operator.apply (.ofInt32 a) b))
  | .int a, .char b => .ok (.int (operator.apply (.ofInt32 a) (.ofChar b)).toInt32)
  | .int a, .bool b => .ok (.int (operator.apply (.ofInt32 a) (.ofBool b)).toInt32)
  | .double a, .int b => .ok (.double (operator.apply a (.ofInt32 b)))
  | .double a, .double b => .ok (.double (operator.apply a b))
  | .double a, .char b => .ok (.double (operator.apply a (.ofChar b)))
  | .double a, .bool b => .ok (.double (operator.apply a (.ofBool b)))
  | .char a, .int b => ofCodepoint (operator.apply (.ofChar a) (.ofInt32 b)).toInt32
  | .char _, .double _ => .error (.unsupportedCombination .character .double)
  | .char _, .bool _ => .error (.unsupportedCombination .character .boolean)
  | .bool a, .int b => .ok (.int (operator.apply (.ofBool a) (.ofInt32 b)).toInt32)
  | .bool a, .double b => .ok (.double (operator.apply (.ofBool a) b))
  | .bool _, .char _ => .error (.unsupportedCombination .boolean .character)
  | .bool _, .bool _ => .error (.unsupportedCombination .boolean .boolean)
  | left, right => concatenate left right operator

/-- Takes the next operand into what has accumulated.  `none` stands for the
unknown value of empty input: alone it waits for an operand, and as an operand it
changes nothing, except that a string still accepts no operator but `+`. -/
def absorb (accumulated operand : Option Scalar) (operator : Operator) :
    Except RuntimeError (Option Scalar) :=
  match accumulated, operand with
  | none, operand => .ok operand
  | some (.string text), none =>
      if operator = .plus then .ok (some (.string text))
      else .error (.unsupportedOperation .string .unknown operator)
  | some left, none => .ok (some left)
  | some left, some right => (left.combine right operator).map some

theorem absorb_some (left right : Scalar) (operator : Operator) :
    absorb (some left) (some right) operator = (left.combine right operator).map some := by
  cases left <;> rfl

end Letterline.Scalar
