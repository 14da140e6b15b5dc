/-
Module: Letterline.Operator
Purpose: Arithmetic operators, comparators and logical connectives.
Trusted boundary: none
Main exports:
  Operator, Operator.apply, Comparator, Connective, Connective.join
-/
import Letterline.Double

namespace Letterline

/-- What joins a part of a value to the parts before it.  A first part has `none`. -/
inductive Operator where
  | none
  | plus
  | minus
  | times
  | divide
  | modulo
deriving Repr, DecidableEq

namespace Operator

/-- The operator that a letter of the source marks. -/
def ofMark? : Char → Option Operator
  | 'p' => some .plus
  | 'm' => some .minus
  | 'n' => some .times
  | 'q' => some .divide
  | 'y' => some .modulo
  | _ => Option.none

/-- The symbol of an operator in messages. -/
def symbol : Operator → String
  | .none => "none"
  | .plus => "+"
  | .minus => "-"
  | .times => "*"
  | .divide => "/"
  | .modulo => "%"

/-- The result of an operator on numbers.  Without an operator the left number
stays. -/
def apply : Operator → Double → Double → Double
  | .none, x, _ => x
  | .plus, x, y => x.add y
  | .minus, x, y => x.sub y
  | .times, x, y => x.mul y
  | .divide, x, y => x.div y
  | .modulo, x, y => x.rem y

end Operator

/-- The relation of a comparison. -/
inductive Comparator where
  | equal
  | notEqual
  | greater
  | greaterOrEqual
  | less
  | lessOrEqual
deriving Repr, DecidableEq

namespace Comparator

/-- The comparator that a word of the source spells. -/
def ofSpelling? : String → Option Comparator
  | "et" => some .equal
  | "at" => some .notEqual
  | "gt" => some .greater
  | "get" => some .greaterOrEqual
  | "lt" => some .less
  | "let" => some .lessOrEqual
  | _ => none

/-- The symbol of a comparator in messages. -/
def symbol : Comparator → String
  | .equal => "=="
  | .notEqual => "!="
  | .greater => ">"
  | .greaterOrEqual => ">="
  | .less => "<"
  | .lessOrEqual => "<="

end Comparator

/-- A logical connective between comparisons. -/
inductive Connective where
  | and
  | or
  | xor
deriving Repr, DecidableEq

namespace Connective

/-- The connective that a letter of the source marks. -/
def ofMark? : Char → Option Connective
  | 'a' => some .and
  | 'o' => some .or
  | 'x' => some .xor
  | _ => none

/-- The truth of two members joined. -/
def join : Connective → Bool → Bool → Bool
  | .and, x, y => x && y
  | .or, x, y => x || y
  | .xor, x, y => x != y

end Connective

end Letterline
