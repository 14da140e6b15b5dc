/-
Module: Letterline.ParseError
Purpose: Why a source is no program.
Trusted boundary: none
Main exports:
  Expectation, Segment, ParseError, ParseError.index, ParseError.message
-/
import Letterline.Cursor
import Letterline.Literal
import Letterline.Program

namespace Letterline

/-- What should have stood where something else was found. -/
inductive Expectation where
  | value
  | valueAfterOperator
  | comparator
  | variableName
  | assignment
  | modification
  | compoundAssignment
  | instructionEnd
  | bodyStart
  | loopSeparator
deriving Repr, DecidableEq

/-- The words for what was expected. -/
def Expectation.text : Expectation → String
  | .value => "value"
  | .valueAfterOperator => "value after operator"
  | .comparator => "comparator"
  | .variableName => "variable name"
  | .assignment => "assignment 'e'"
  | .modification => "modification"
  | .compoundAssignment => "'e' after operator"
  | .instructionEnd => "instruction end 'l'"
  | .bodyStart => "body start 't'"
  | .loopSeparator => "for separator 'k'"

/-- A part of the head of a counting loop that holds instructions. -/
inductive Segment where
  | initialization
  | update
deriving Repr, DecidableEq

/-- The name of a segment in messages. -/
def Segment.name : Segment → String
  | .initialization => "initialization"
  | .update => "update"

/-- Why a source is no program, and where. -/
inductive ParseError where
  | emptySource
  | spaceInSource (index : Nat)
  /-- At the end of the source nothing is found. -/
  | unexpected (expected : Expectation) (found : Option Char) (index : Nat)
  | unknownInstruction (found : Char) (index : Nat)
  | unknownValueType (found : Char) (index : Nat)
  | unknownComparator (found : String) (index : Nat)
  | invalidLiteral (kind : LiteralKind) (contents : String) (index : Nat)
  | unterminatedLiteral (delimiter : Char) (index : Nat)
  | unclosedBody (index : Nat)
  | invalidForSegment (segment : Segment) (kind : InstructionKind) (index : Nat)
deriving DecidableEq

namespace ParseError

/-- The index that an error points at. -/
def index : ParseError → Nat
  | .emptySource => 0
  | .spaceInSource index => index
  | .unexpected _ _ index => index
  | .unknownInstruction _ index => index
  | .unknownValueType _ index => index
  | .unknownComparator _ index => index
  | .invalidLiteral _ _ index => index
  | .unterminatedLiteral _ index => index
  | .unclosedBody index => index
  | .invalidForSegment _ _ index => index

/-- The one character that an error points at. -/
def span (error : ParseError) : Span :=
  ⟨error.index, error.index + 1⟩

/-- A character between single quotes. -/
def quoted (c : Char) : String :=
  "'" ++ String.singleton c ++ "'"

/-- The text that reports an error. -/
def message : ParseError → String
  | .emptySource => "Source code is empty"
  | .spaceInSource index =>
      "Source code cannot contain spaces (found one at index " ++ toString index ++ ")"
  | .unexpected expected found index =>
      "Expected " ++ expected.text ++ " at index " ++ toString index ++ ", found "
        ++ (found.map quoted).getD "end of source"
  | .unknownInstruction found index =>
      "Unknown instruction " ++ quoted found ++ " at index " ++ toString index
  | .unknownValueType found index =>
      "Unknown value type " ++ quoted found ++ " at index " ++ toString index
  | .unknownComparator found index =>
      "Unknown comparator '" ++ found ++ "' at index " ++ toString index
  | .invalidLiteral kind contents index =>
      "Invalid " ++ kind.name ++ " literal '" ++ contents ++ "' at index " ++ toString index
  | .unterminatedLiteral delimiter index =>
      "Unterminated literal opened with " ++ quoted delimiter ++ " at index " ++ toString index
  | .unclosedBody index => "Unclosed code body starting at index " ++ toString index
  | .invalidForSegment segment kind index =>
      "The " ++ segment.name ++ " of a for loop cannot contain a " ++ kind.name
        ++ " instruction (index " ++ toString index ++ ")"

/-- The error for a source that has no cursor. -/
def ofRefusal : Cursor.Refusal → ParseError
  | .empty => .emptySource
  | .space index => .spaceInSource index

end ParseError

/-- The scalar of a literal whose opening delimiter stands at `index`. -/
def LiteralKind.read (kind : LiteralKind) (contents : String) (index : Nat) :
    Except ParseError Scalar :=
  match kind.read? contents with
  | some scalar => .ok scalar
  | none => .error (.invalidLiteral kind contents index)

end Letterline
