/-
Module: Letterline.Program
Purpose: Programs: the instructions and where they stand in the source.
Trusted boundary: none
Main exports:
  Span, Modification, Instruction, Program, Instruction.kind, Instruction.span
-/
import Letterline.Condition

namespace Letterline

/-- A stretch of the source, in characters. -/
structure Span where
  /-- The index of the first character. -/
  start : Nat
  /-- The index after the last character. -/
  stop : Nat
deriving Repr, DecidableEq

/-- How an instruction changes a variable. -/
inductive Modification where
  | increment
  | decrement
  | compound (operator : Operator) (value : Value)
  | assign (value : Value)

/-- An instruction, with the stretch of source that it was read from. -/
inductive Instruction where
  | exit (span : Span)
  | print (value : Value) (span : Span)
  | declare (name : String) (value : Value) (span : Span)
  | modify (name : String) (modification : Modification) (span : Span)
  | branch (condition : Condition) (thenBody : List Instruction)
      (elseBody : Option (List Instruction)) (span : Span)
  | whileLoop (condition : Condition) (body : List Instruction) (span : Span)
  | forLoop (init : List Instruction) (condition : Condition) (update body : List Instruction)
      (span : Span)

/-- A program: the instructions at the top, and the stretch of the whole source. -/
structure Program where
  instructions : List Instruction
  span : Span

/-- What an instruction is, apart from its contents. -/
inductive InstructionKind where
  | exit
  | print
  | declare
  | modify
  | branch
  | whileLoop
  | forLoop
deriving Repr, DecidableEq

/-- The name of a kind of instruction in messages. -/
def InstructionKind.name : InstructionKind → String
  | .exit => "exit"
  | .print => "print"
  | .declare => "variable init"
  | .modify => "variable modify"
  | .branch => "if"
  | .whileLoop => "while"
  | .forLoop => "for"

namespace Instruction

/-- What an instruction is. -/
def kind : Instruction → InstructionKind
  | .exit _ => .exit
  | .print .. => .print
  | .declare .. => .declare
  | .modify .. => .modify
  | .branch .. => .branch
  | .whileLoop .. => .whileLoop
  | .forLoop .. => .forLoop

/-- Where an instruction stands. -/
def span : Instruction → Span
  | .exit span => span
  | .print _ span => span
  | .declare _ _ span => span
  | .modify _ _ span => span
  | .branch _ _ _ span => span
  | .whileLoop _ _ span => span
  | .forLoop _ _ _ _ span => span

/-- Says whether an instruction is an exit. -/
def isExit (instruction : Instruction) : Bool :=
  instruction.kind == .exit

end Instruction

end Letterline
