/-
Module: Letterline.Condition
Purpose: Conditions: comparisons and chains of them, and their truth.
Trusted boundary: none
Main exports:
  Condition, Condition.values, Condition.evaluate
-/
import Letterline.Scalar.Comparison
import Letterline.Value.Evaluation

namespace Letterline

/-- What a branch or a loop depends on.  The members of a chain are joined from
left to right. -/
inductive Condition where
  | compare (left : Value) (comparator : Comparator) (right : Value)
  | chain (head : Condition) (rest : List (Connective × Condition))

namespace Condition

mutual

/-- The values of a condition in the order of their evaluation. -/
def values : Condition → List Value
  | .compare left _ right => [left, right]
  | .chain head rest => head.values ++ linkValues rest

/-- The values of the members after the first. -/
def linkValues : List (Connective × Condition) → List Value
  | [] => []
  | (_, condition) :: rest => condition.values ++ linkValues rest

end

/-!
Every member of a chain is evaluated, whatever the members before it gave, and the
results are joined from left to right.
-/

mutual

/-- The truth of a condition. -/
def evaluate (store : Store) : Condition → Evaluation Bool
  | .compare left comparator right => do
      let left ← left.result store
      let right ← right.result store
      Evaluation.ofExcept (left.compare comparator right)
  | .chain head rest => do
      let truth ← evaluate store head
      evaluateLinks store truth rest

/-- Joins the truth of further members to that of the members before. -/
def evaluateLinks (store : Store) (truth : Bool) :
    List (Connective × Condition) → Evaluation Bool
  | [] => return truth
  | (connective, condition) :: rest => do
      let next ← evaluate store condition
      evaluateLinks store (connective.join truth next) rest

end

end Condition

end Letterline
