/-
Module: Letterline.Program.Parser
Purpose: Reading instructions and programs.
Trusted boundary: none
Main exports:
  Instruction.parse, Instruction.parseRun, Program.parse
-/
import Letterline.Condition.Parser

namespace Letterline

/-!
The first letter of an instruction says what it is.  A simple instruction ends in
`l`; a body is opened by `t` and closed by `z`.  Bodies, the segments of a loop head
and the whole program are runs of instructions that differ in where they stop.
-/

/-- Where a run of instructions stops. -/
inductive Stop where
  /-- At the end of the source. -/
  | sourceEnd
  /-- Behind a closing mark; the body starts at `start`. -/
  | bodyEnd (start : Nat)
  /-- On the mark that ends a segment of a loop head. -/
  | segmentEnd (segment : Segment)
deriving Repr, DecidableEq

/-- The mark that ends a segment. -/
def Segment.mark : Segment → Char
  | .initialization => 'k'
  | .update => 't'

/-- Says whether a segment takes an instruction of a kind. -/
def Segment.allows : Segment → InstructionKind → Bool
  | .initialization, kind => kind == .declare || kind == .modify
  | .update, kind => kind == .modify

namespace Modification

/-- Reads what follows the name in an instruction that changes a variable. -/
def parse : Parser Modification := do
  let here ← Parser.cursor
  if here.exhausted then
    Parser.unexpected .modification
  else if here.current = 'e' then
    Parser.step
    return .assign (← Value.parse)
  else
    match Operator.ofMark? here.current with
    | none => Parser.unexpected .modification
    | some operator =>
        Parser.step
        let there ← Parser.cursor
        if there.exhausted then
          Parser.unexpected .modification
        else if there.current = 'e' then
          Parser.step
          return .compound operator (← Value.parse)
        else if operator = .plus ∧ there.current = 'p' then
          Parser.step
          return .increment
        else if operator = .minus ∧ there.current = 'm' then
          Parser.step
          return .decrement
        else
          Parser.unexpected .compoundAssignment

end Modification

namespace Instruction

/-- The stretch from `start` to where the cursor stands. -/
def spanFrom (start : Nat) : Parser Span := do
  return ⟨start, (← Parser.cursor).offset⟩

/-- Steps over the mark that ends a simple instruction. -/
def parseEnd (start : Nat) : Parser Span := do
  Parser.expect 'l' .instructionEnd
  spanFrom start

/-- Reads a body. -/
def parseBody (run : Stop → Parser (List Instruction)) : Parser (List Instruction) := do
  Parser.expect 't' .bodyStart
  run (.bodyEnd (← Parser.cursor).offset)

/-- Reads a declaration behind its first letter. -/
def parseDeclaration (start : Nat) : Parser Instruction := do
  let here ← Parser.cursor
  if here.exhausted || !here.current.isUpper then
    Parser.unexpected .variableName
  else
    let name ← Parser.name false
    Parser.expect 'e' .assignment
    let value ← Value.parse
    return .declare name value (← parseEnd start)

/-- Reads the alternative that may follow a branch. -/
def parseElse (run : Stop → Parser (List Instruction)) :
    Parser (Option (List Instruction)) := do
  let here ← Parser.cursor
  if !here.exhausted && here.current == 'e' then
    Parser.step
    return some (← parseBody run)
  else
    return none

/-- Reads an instruction, given how to read runs of instructions inside it. -/
def parse (run : Stop → Parser (List Instruction)) : Parser Instruction := do
  let here ← Parser.cursor
  let start := here.index
  if here.current.isUpper then
    let name ← Parser.name false
    let modification ← Modification.parse
    return .modify name modification (← parseEnd start)
  else
    match here.current with
    | 'x' =>
        Parser.step
        return .exit (← parseEnd start)
    | 'h' =>
        Parser.step
        let value ← Value.parse
        return .print value (← parseEnd start)
    | 'v' =>
        Parser.step
        parseDeclaration start
    | 'j' =>
        Parser.step
        let condition ← Condition.parse
        let thenBody ← parseBody run
        let elseBody ← parseElse run
        return .branch condition thenBody elseBody (← spanFrom start)
    | 'r' =>
        Parser.step
        let condition ← Condition.parse
        let body ← parseBody run
        return .whileLoop condition body (← spanFrom start)
    | 'f' =>
        Parser.step
        let init ← run (.segmentEnd .initialization)
        Parser.expect 'k' .loopSeparator
        let condition ← Condition.parse
        Parser.expect 'k' .loopSeparator
        let update ← run (.segmentEnd .update)
        let body ← parseBody run
        return .forLoop init condition update body (← spanFrom start)
    | found => throw (.unknownInstruction found start)

/-- What the end of the source means for a run of instructions: only a body has to
be closed. -/
def parseSourceEnd : Stop → Parser (List Instruction)
  | .bodyEnd start => throw (.unclosedBody start)
  | _ => return []

/-- Says whether a run stops at a mark. -/
def stopsAt (mark : Char) : Stop → Bool
  | .sourceEnd => false
  | .bodyEnd _ => mark == 'z'
  | .segmentEnd segment => mark == segment.mark

/-- Steps over the mark that ends a body, and leaves the mark of a segment. -/
def parseStop : Stop → Parser Unit
  | .bodyEnd _ => Parser.step
  | _ => return ()

/-- Refuses an instruction that a segment does not take. -/
def permit (stop : Stop) (instruction : Instruction) : Parser Unit :=
  match stop with
  | .segmentEnd segment =>
      if segment.allows instruction.kind then return ()
      else throw (.invalidForSegment segment instruction.kind instruction.span.start)
  | _ => return ()

/-- Reads instructions up to where a run stops.

Every instruction takes at least a character, and so does the mark in front of a run
inside it, so `fuel` suffices if it is the number of characters that remain.  It is
spent exactly at the end of the source. -/
def parseRun : (fuel : Nat) → Stop → Parser (List Instruction)
  | 0, stop => parseSourceEnd stop
  | fuel + 1, stop => do
      let here ← Parser.cursor
      if here.exhausted then
        parseSourceEnd stop
      else if stopsAt here.current stop then
        parseStop stop
        return []
      else
        let instruction ← parse (parseRun fuel)
        permit stop instruction
        let rest ← parseRun fuel stop
        return instruction :: rest

end Instruction

namespace Program

/-- Reads the instructions of a whole source. -/
def parseInstructions : Parser (List Instruction) := do
  Instruction.parseRun (← Parser.cursor).remaining .sourceEnd

/-- Reads a program.  Whether it can run is not looked at. -/
def parse (source : String) : Except ParseError Program :=
  match Parser.runFrom parseInstructions source with
  | .ok (instructions, there) => .ok ⟨instructions, ⟨0, there.length⟩⟩
  | .error error => .error error

end Program

end Letterline
