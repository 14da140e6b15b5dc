/-
Module: Letterline.Finding
Purpose: What a check of a program can report.
Trusted boundary: none
Main exports:
  Rule, Severity, Cause, Finding, Finding.text
-/
import Letterline.Program

namespace Letterline

/-- The rules that programs are checked by, in the order in which they report. -/
inductive Rule where
  | emptyProgram
  | missingExit
  | unreachableCode
  | undefinedVariable
deriving Repr, DecidableEq

namespace Rule

/-- Every rule, in order. -/
def all : List Rule :=
  [.emptyProgram, .missingExit, .unreachableCode, .undefinedVariable]

/-- The name of a rule in reports. -/
def id : Rule → String
  | .emptyProgram => "empty-program"
  | .missingExit => "missing-exit"
  | .unreachableCode => "unreachable-code"
  | .undefinedVariable => "undefined-variable"

/-- What a rule asks for. -/
def description : Rule → String
  | .emptyProgram => "A program must contain at least one instruction"
  | .missingExit => "A program must end with an exit instruction"
  | .unreachableCode => "Instructions after an exit never run"
  | .undefinedVariable => "Variables must be declared in an enclosing body before use"

end Rule

/-- What a finding means for the program. -/
inductive Severity where
  /-- The program does not run. -/
  | error
  /-- The program runs all the same. -/
  | warning
deriving Repr, DecidableEq

/-- The name of a severity in reports. -/
def Severity.name : Severity → String
  | .error => "error"
  | .warning => "warning"

/-- What was found. -/
inductive Cause where
  | noInstructions
  | noFinalExit (last : InstructionKind)
  | unreachable (kind : InstructionKind)
  | undeclaredRead (name : String)
  | undeclaredModification (name : String)
deriving Repr, DecidableEq

namespace Cause

/-- The rule that asks for what is missing. -/
def rule : Cause → Rule
  | .noInstructions => .emptyProgram
  | .noFinalExit _ => .missingExit
  | .unreachable _ => .unreachableCode
  | .undeclaredRead _ => .undefinedVariable
  | .undeclaredModification _ => .undefinedVariable

/-- Only a program that is empty or falls off its end is kept from running. -/
def severity : Cause → Severity
  | .noInstructions => .error
  | .noFinalExit _ => .error
  | _ => .warning

/-- The words for what was found. -/
def message : Cause → String
  | .noInstructions => "No instructions found"
  | .noFinalExit last =>
      "No exit instruction at the end of the program (last instruction is " ++ last.name ++ ")"
  | .unreachable kind => "Unreachable " ++ kind.name ++ " instruction after exit"
  | .undeclaredRead name => "Variable '" ++ name ++ "' is not declared"
  | .undeclaredModification name => "Modifying undeclared variable '" ++ name ++ "'"

end Cause

/-- What was found, and the instruction that it was found at. -/
structure Finding where
  span : Span
  cause : Cause
deriving Repr, DecidableEq

namespace Finding

/-- Says whether a finding keeps the program from running. -/
def isError (finding : Finding) : Bool :=
  finding.cause.severity == .error

/-- The line that reports a finding. -/
def text (finding : Finding) : String :=
  finding.cause.severity.name ++ " at index " ++ toString finding.span.start ++ ": "
    ++ finding.cause.message ++ " [" ++ finding.cause.rule.id ++ "]"

end Finding

end Letterline
