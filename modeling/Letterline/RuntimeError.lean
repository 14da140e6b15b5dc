/-
Module: Letterline.RuntimeError
Purpose: The faults that stop a running program.
Trusted boundary: none
Main exports:
  RuntimeError, RuntimeError.message
-/
import Letterline.Operator
import Letterline.Scalar

namespace Letterline

/-- Why a running program stopped. -/
inductive RuntimeError where
  | unknownVariable (name : String)
  | unevaluatedVariable (name : String)
  | unsupportedOperation (left right : Kind) (operator : Operator)
  | unsupportedCombination (left right : Kind)
  | typeMismatch (left right : Kind)
  | stringComparison (comparator : Comparator)
  | invalidCodepoint (codepoint : Int32)
  | input (reason : String)
  | output (reason : String)
deriving DecidableEq

/-- The text that reports a fault. -/
def RuntimeError.message : RuntimeError → String
  | .unknownVariable name => "Unknown variable: " ++ name
  | .unevaluatedVariable name =>
      "Variable '" ++ name ++ "' holds a value that has not been evaluated"
  | .unsupportedOperation left right operator =>
      "Unsupported operation for " ++ left.name ++ " and " ++ right.name ++ ": "
        ++ operator.symbol
  | .unsupportedCombination left right =>
      "Cannot combine a " ++ left.name ++ " with a " ++ right.name
  | .typeMismatch left right =>
      "Cannot compare two different value types (" ++ left.name ++ ", " ++ right.name ++ ")"
  | .stringComparison comparator =>
      "Strings can only be compared for equality, found " ++ comparator.symbol
  | .invalidCodepoint codepoint =>
      "Codepoint " ++ toString codepoint.toInt ++ " is not a valid character"
  | .input reason => "Failed to read input: " ++ reason
  | .output reason => "Failed to write output: " ++ reason

end Letterline
