/-
Module: Letterline.Value.Evaluation
Purpose: Evaluating values.
Trusted boundary: none
Main exports:
  Evaluation, Operand.resolve, Value.result, Value.evaluate, Value.modify
-/
import Letterline.Dialogue
import Letterline.Scalar.Combination
import Letterline.Scalar.Reading
import Letterline.Store

namespace Letterline

/-!
The parts of a value are evaluated and combined from left to right, without
precedence.  An operand can be unknown, which is what an empty line of input is; a
value of which nothing is known is the empty string.
-/

/-- A computation on values: it can ask for input, and it can fail. -/
abbrev Evaluation (α : Type) : Type :=
  ExceptT RuntimeError Dialogue α

namespace Evaluation

/-- A result that is at hand. -/
def ofExcept {α : Type} (result : Except RuntimeError α) : Evaluation α :=
  .mk (.done result)

/-- Asks for a line of input. -/
def ask : Evaluation String :=
  .mk (.ask fun answer => .done (answer.mapError .input))

end Evaluation

/-- The scalar of an operand. -/
def Operand.resolve (store : Store) : Operand → Evaluation (Option Scalar)
  | .literal scalar => return some scalar
  | .variable name =>
      match store.lookup? name with
      | none => throw (.unknownVariable name)
      | some entry =>
          match entry.value.scalar? with
          | none => throw (.unevaluatedVariable name)
          | some scalar => return some scalar
  | .input => return Scalar.ofInput? (← Evaluation.ask)

namespace Value

/-- Takes parts into what has accumulated. -/
def fold (store : Store) : (accumulated : Option Scalar) → List Part → Evaluation (Option Scalar)
  | accumulated, [] => return accumulated
  | accumulated, part :: rest => do
      let operand ← part.operand.resolve store
      let joined ← Evaluation.ofExcept (Scalar.absorb accumulated operand part.operator)
      fold store joined rest

/-- The scalar of a value.  An evaluated value is not evaluated again: its result is
the literal that it begins with, or else the empty string. -/
def result (store : Store) (value : Value) : Evaluation Scalar :=
  if value.evaluated then
    return value.leadingLiteral?.getD (.string "")
  else
    return (← fold store none value.parts).getD (.string "")

/-- The value evaluated, which changes nothing if it already is. -/
def evaluate (store : Store) (value : Value) : Evaluation Value :=
  if value.evaluated then return value
  else return .ofScalar (← value.result store)

/-- Extends a value by another one and evaluates the chain.  If that fails, the
value is left extended. -/
def modify (store : Store) (value : Value) (operator : Operator) (other : Value) :
    Dialogue (Except RuntimeError Unit × Value) := do
  let extended := value.extend operator other
  match ← (extended.evaluate store).run with
  | .ok evaluated => return (.ok (), evaluated)
  | .error error => return (.error error, extended)

end Value

end Letterline
