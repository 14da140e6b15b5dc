/-
Module: Letterline.Program.Execution
Purpose: Running instructions and programs.
Trusted boundary: none
Main exports:
  Ending, Instruction.execute, Instruction.executeAll, Program.execute
-/
import Letterline.Program

namespace Letterline

/-!
An instruction takes a store to an ending and a store.  Every body runs in a frame of
its own, which is closed however the body ends, and a loop opens a new frame for each
of its turns.

A loop takes at most `limit` turns each time it is entered, so that a run is a finite
dialogue.  A run that spends a limit is unfinished; one that ends otherwise ends in
the same way under every higher limit.
-/

/-- How instructions end. -/
inductive Ending where
  /-- The next instruction is due. -/
  | proceeds
  /-- An exit was reached. -/
  | exits
  /-- A fault stopped the program. -/
  | fails (error : RuntimeError)
  /-- A loop spent its turns. -/
  | unfinished
deriving DecidableEq

/-- What running on a store is. -/
abbrev Execution : Type :=
  Store → Dialogue (Ending × Store)

namespace Execution

/-- Runs inside a frame, which is closed on every path. -/
def inFrame (body : Execution) : Execution := fun store => do
  let (ending, store) ← body store.push
  return (ending, store.pop)

/-- Runs on only if the first part proceeds. -/
def andThen (first second : Execution) : Execution := fun store => do
  let (ending, store) ← first store
  match ending with
  | .proceeds => second store
  | _ => return (ending, store)

/-- Evaluates in a store and goes on with the result.  A fault ends the run. -/
def given {α : Type} (evaluation : Store → Evaluation α) (body : α → Execution) :
    Execution := fun store => do
  match ← (evaluation store).run with
  | .ok result => body result store
  | .error error => return (.fails error, store)

/-- One turn of a loop: what the condition and the body say about the next one. -/
def turn (condition : Store → Evaluation Bool) (body : Execution) (store : Store) :
    Dialogue (Dialogue.Turn Store (Ending × Store)) := do
  match ← (condition store).run with
  | .error error => return .stop (.fails error, store)
  | .ok false => return .stop (.proceeds, store)
  | .ok true =>
      let (ending, store) ← body store
      match ending with
      | .proceeds => return .again store
      | _ => return .stop (ending, store)

/-- Runs a body as long as a condition holds, at most `limit` times. -/
def repeatWhile (limit : Nat) (condition : Store → Evaluation Bool) (body : Execution) :
    Execution :=
  Dialogue.iterate (turn condition body) (fun store => (.unfinished, store)) limit

/-- Writes a line: a text, if it is not empty, and the end of the line. -/
def writeLine (text : String) : Dialogue (Except String Unit) :=
  if text = "" then
    .tell "\n" .done
  else
    .tell text fun
      | .ok () => .tell "\n" .done
      | .error reason => .done (.error reason)

/-- Prints a line. -/
def print (text : String) : Execution := fun store => do
  match ← writeLine text with
  | .ok () => return (.proceeds, store)
  | .error reason => return (.fails (.output reason), store)

/-- Declares a variable. -/
def declare (name : String) (scalar : Scalar) : Execution := fun store =>
  return (.proceeds, store.declare name (.ofScalar scalar))

/-- Changes a variable. -/
def assign (name : String) (value : Value) : Execution := fun store =>
  return (.proceeds, store.set name value)

end Execution

namespace Modification

/-- The value that a modification makes of the current one. -/
def apply (store : Store) (current : Value) : Modification → Evaluation Value
  | .increment => (current.extend .plus .one).evaluate store
  | .decrement => (current.extend .minus .one).evaluate store
  | .compound operator value => (current.extend operator value).evaluate store
  | .assign value => return .ofScalar (← value.result store)

/-- The new value of a variable, which has to be declared. -/
def newValue (name : String) (modification : Modification) (store : Store) :
    Evaluation Value :=
  match store.lookup? name with
  | none => throw (.unknownVariable name)
  | some entry => modification.apply store entry.value

end Modification

namespace Instruction

mutual

/-- Runs an instruction. -/
def execute (limit : Nat) : Instruction → Execution
  | .exit _ => fun store => return (.exits, store)
  | .print value _ => .given value.result fun scalar => .print scalar.text
  | .declare name value _ => .given value.result fun scalar => .declare name scalar
  | .modify name modification _ =>
      .given (modification.newValue name) fun value => .assign name value
  | .branch condition thenBody none _ =>
      .inFrame (.given condition.evaluate fun
        | true => executeAll limit thenBody
        | false => fun store => return (.proceeds, store))
  | .branch condition thenBody (some elseBody) _ =>
      .inFrame (.given condition.evaluate fun
        | true => executeAll limit thenBody
        | false => executeAll limit elseBody)
  | .whileLoop condition body _ =>
      .repeatWhile limit condition.evaluate (.inFrame (executeAll limit body))
  | .forLoop init condition update body _ =>
      .inFrame (.andThen (executeAll limit init)
        (.repeatWhile limit condition.evaluate
          (.inFrame (.andThen (executeAll limit body) (executeAll limit update)))))

/-- Runs instructions in order until one does not proceed. -/
def executeAll (limit : Nat) : List Instruction → Execution
  | [] => fun store => return (.proceeds, store)
  | instruction :: rest => .andThen (execute limit instruction) (executeAll limit rest)

end

end Instruction

namespace Program

/-- Runs a program and flushes what it wrote.  After a fault nothing is flushed. -/
def execute (limit : Nat) (program : Program) : Execution := fun store => do
  let (ending, store) ← Instruction.executeAll limit program.instructions store
  match ending with
  | .fails _ => return (ending, store)
  | .unfinished => return (ending, store)
  | _ =>
      .flush fun
        | .ok () => .done (ending, store)
        | .error reason => .done (.fails (.output reason), store)

end Program

end Letterline
