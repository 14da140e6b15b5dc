/-
Module: Letterline.Value
Purpose: Value chains: operands joined by arithmetic operators.
Trusted boundary: none
Main exports:
  Operand, Part, Value, Value.scalar?, Value.kind, Value.namesRead, Value.extend
-/
import Letterline.Operator
import Letterline.Scalar

namespace Letterline

/-- One source of a value. -/
inductive Operand where
  | literal (scalar : Scalar)
  /-- The variable of a name, which is in lower case. -/
  | variable (name : String)
  /-- A line asked of the user. -/
  | input
deriving DecidableEq

/-- What an operand is before evaluation. -/
def Operand.kind : Operand → Kind
  | .literal scalar => scalar.kind
  | .variable _ => .variable
  | .input => .input

/-- An operand and the operator that joins it to the parts before it. -/
structure Part where
  operator : Operator
  operand : Operand
deriving DecidableEq

/-- A chain of parts.  It can be marked as evaluated, and then its first literal is
its result. -/
structure Value where
  parts : List Part
  evaluated : Bool
deriving DecidableEq

namespace Value

/-- A chain that is still to be evaluated. -/
def ofParts (parts : List Part) : Value :=
  ⟨parts, false⟩

/-- The evaluated value of a scalar. -/
def ofScalar (scalar : Scalar) : Value :=
  ⟨[⟨.none, .literal scalar⟩], true⟩

/-- The literal 1, by which counting up and down change a variable. -/
def one : Value :=
  ofParts [⟨.none, .literal (.int 1)⟩]

/-- The scalar that a chain begins with, if it begins with a literal. -/
def leadingLiteral? (value : Value) : Option Scalar :=
  match value.parts with
  | ⟨_, .literal scalar⟩ :: _ => some scalar
  | _ => none

/-- The result of an evaluated value. -/
def scalar? (value : Value) : Option Scalar :=
  if value.evaluated then value.leadingLiteral? else none

/-- What the first part is. -/
def kind (value : Value) : Kind :=
  match value.parts with
  | part :: _ => part.operand.kind
  | [] => .unknown

/-- The names that a value reads, in order and with repetitions. -/
def namesRead (value : Value) : List String :=
  value.parts.filterMap fun part =>
    match part.operand with
    | .variable name => some name
    | _ => none

/-- The parts of a value with the first one joined by `operator`. -/
def joinedBy (operator : Operator) (value : Value) : List Part :=
  match value.parts with
  | [] => []
  | first :: rest => ⟨operator, first.operand⟩ :: rest

/-- Puts the parts of another value behind, which leaves a chain to be evaluated. -/
def extend (value : Value) (operator : Operator) (other : Value) : Value :=
  ofParts (value.parts ++ other.joinedBy operator)

end Value

end Letterline
