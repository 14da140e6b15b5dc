/-
Module: Letterline.Check
Purpose: The rules on programs, and checking a program before it runs.
Trusted boundary: none
Main exports:
  Check.emptyProgram, Check.missingExit, Check.unreachableCode, Scope,
  Check.undefinedVariable, Rule.check, Program.findings, Program.prepare
-/
import Letterline.Finding
import Letterline.Program.Parser
import Letterline.Store

namespace Letterline

namespace Check

/-! ### The end of a program -/

/-- A program has an instruction. -/
def emptyProgram (program : Program) : List Finding :=
  if program.instructions.isEmpty then [⟨program.span, .noInstructions⟩] else []

/-- The last instruction at the top is an exit.  One inside a body does not count,
for the body need not run. -/
def missingExit (program : Program) : List Finding :=
  match program.instructions.getLast? with
  | none => []
  | some last => if last.isExit then [] else [⟨last.span, .noFinalExit last.kind⟩]

/-! ### Unreachable instructions

An exit ends every body around it, so what follows it in its own body never runs.
Of such instructions the first is reported, and nothing inside or after it is looked
at.
-/

mutual

/-- The findings inside the bodies of an instruction. -/
def unreachableInside : Instruction → List Finding
  | .branch _ thenBody none _ => unreachableIn thenBody
  | .branch _ thenBody (some elseBody) _ => unreachableIn thenBody ++ unreachableIn elseBody
  | .whileLoop _ body _ => unreachableIn body
  | .forLoop _ _ _ body _ => unreachableIn body
  | _ => []

/-- The findings in a body. -/
def unreachableIn : List Instruction → List Finding
  | [] => []
  | .exit _ :: next :: _ => [⟨next.span, .unreachable next.kind⟩]
  | instruction :: rest => unreachableInside instruction ++ unreachableIn rest

end

/-- No instruction follows an exit in its body. -/
def unreachableCode (program : Program) : List Finding :=
  unreachableIn program.instructions

end Check

/-! ### Undeclared names

A scope knows of a store only which names it holds and which frame owns them.  The
check walks through a program once, in the order of the source.  A body is checked in
a frame of its own, and whether or not it would run, the names that it declares are
taken for removed when it ends, also if they were declared outside before.
-/

/-- The names that are declared, and the names that each open frame owns, top frame
first. -/
structure Scope where
  names : List String
  frames : List (List String)
deriving Repr, DecidableEq

namespace Scope

/-- No names and no frames. -/
def empty : Scope :=
  ⟨[], []⟩

/-- Declares a name in the top frame. -/
def declare (name : String) (scope : Scope) : Scope where
  names := if name ∈ scope.names then scope.names else scope.names ++ [name]
  frames := Store.record name scope.frames

/-- Opens a frame. -/
def push (scope : Scope) : Scope :=
  { scope with frames := [] :: scope.frames }

/-- The names that the top frame owns. -/
def topNames (scope : Scope) : List String :=
  scope.frames.head?.getD []

/-- Removes names. -/
def forget (removed : List String) (scope : Scope) : Scope :=
  { scope with names := scope.names.filter (· ∉ removed) }

end Scope

namespace Check

/-- The names that a value reads and that are not declared. -/
def undeclaredIn (scope : Scope) (span : Span) (value : Value) : List Finding :=
  (value.namesRead.filter (· ∉ scope.names)).map fun name => ⟨span, .undeclaredRead name⟩

/-- The names that a condition reads and that are not declared. -/
def undeclaredInCondition (scope : Scope) (span : Span) (condition : Condition) :
    List Finding :=
  condition.values.flatMap (undeclaredIn scope span)

/-- The names that a modification uses and that are not declared. -/
def undeclaredInModification (scope : Scope) (span : Span) (name : String)
    (modification : Modification) : List Finding :=
  (if name ∈ scope.names then [] else [⟨span, .undeclaredModification name⟩])
    ++ match modification with
      | .compound _ value => undeclaredIn scope span value
      | .assign value => undeclaredIn scope span value
      | _ => []

mutual

/-- The findings in an instruction, and the scope behind it. -/
def declarations : Instruction → Scope → List Finding × Scope
  | .exit _, scope => ([], scope)
  | .print value span, scope => (undeclaredIn scope span value, scope)
  | .declare name value span, scope => (undeclaredIn scope span value, scope.declare name)
  | .modify name modification span, scope =>
      (undeclaredInModification scope span name modification, scope)
  | .branch condition thenBody none span, scope =>
      let (found, inner) := declarationsIn thenBody scope.push
      (undeclaredInCondition scope span condition ++ found, scope.forget inner.topNames)
  | .branch condition thenBody (some elseBody) span, scope =>
      let (thenFound, thenInner) := declarationsIn thenBody scope.push
      let (elseFound, elseInner) := declarationsIn elseBody scope.push
      (undeclaredInCondition scope span condition ++ thenFound ++ elseFound,
        scope.forget (thenInner.topNames ++ elseInner.topNames))
  | .whileLoop condition body span, scope =>
      let (found, inner) := declarationsIn body scope.push
      (undeclaredInCondition scope span condition ++ found, scope.forget inner.topNames)
  | .forLoop init condition update body span, scope =>
      let (initFound, head) := declarationsIn init scope.push
      let (bodyFound, inBody) := declarationsIn body head.push
      let (updateFound, inUpdate) := declarationsIn update inBody
      (initFound ++ undeclaredInCondition head span condition ++ bodyFound ++ updateFound,
        scope.forget (inUpdate.topNames ++ head.topNames))

/-- The findings in a body, and the scope behind it. -/
def declarationsIn : List Instruction → Scope → List Finding × Scope
  | [], scope => ([], scope)
  | instruction :: rest, scope =>
      let (found, scope) := declarations instruction scope
      let (restFound, scope) := declarationsIn rest scope
      (found ++ restFound, scope)

end

/-- Every name that is read or modified has been declared and not been removed. -/
def undefinedVariable (program : Program) : List Finding :=
  (declarationsIn program.instructions .empty).1

end Check

/-! ### All rules -/

/-- What a rule finds in a program. -/
def Rule.check : Rule → Program → List Finding
  | .emptyProgram => Check.emptyProgram
  | .missingExit => Check.missingExit
  | .unreachableCode => Check.unreachableCode
  | .undefinedVariable => Check.undefinedVariable

namespace Program

/-- Everything that the rules find in a program, rule by rule. -/
def findings (program : Program) : List Finding :=
  Rule.all.flatMap fun rule => rule.check program

/-- The findings that keep a program from running. -/
def errors (program : Program) : List Finding :=
  program.findings.filter Finding.isError

end Program

/-- Why a source does not run. -/
inductive Rejection where
  | unreadable (error : ParseError)
  | invalid (findings : List Finding)

/-- Reads a program that can run. -/
def Program.prepare (source : String) : Except Rejection Program :=
  match Program.parse source with
  | .error error => .error (.unreadable error)
  | .ok program =>
      if program.errors.isEmpty then .ok program else .error (.invalid program.errors)

end Letterline
