/-
Module: Letterline.Session
Purpose: Running programs one after the other on one store and one console.
Trusted boundary: none
Main exports:
  Session, Failure, Outcome, Session.runProgram, Session.runSource
-/
import Letterline.Check
import Letterline.Program.Execution
import Letterline.Script

namespace Letterline

/-- A store and the state of a console, which outlive a program. -/
structure Session (σ : Type) where
  store : Store
  world : σ

/-- Why a program did not run to its end. -/
inductive Failure where
  | unreadable (error : ParseError)
  | invalid (findings : List Finding)
  | stopped (error : RuntimeError)

/-- The text that reports a failure. -/
def Failure.message : Failure → String
  | .unreadable error => "Parse error: " ++ error.message
  | .invalid findings => "\n".intercalate (findings.map Finding.text)
  | .stopped error => "Runtime error: " ++ error.message

/-- What came of running a program. -/
inductive Outcome where
  /-- It reached an exit. -/
  | exited
  /-- It fell off its end. -/
  | ended
  /-- It did not run, or stopped. -/
  | failed (failure : Failure)
  /-- It spent the turns of a loop. -/
  | unfinished

namespace Outcome

/-- The outcome of a run that ended in some way. -/
def ofEnding : Ending → Outcome
  | .proceeds => .ended
  | .exits => .exited
  | .fails error => .failed (.stopped error)
  | .unfinished => .unfinished

/-- The outcome of a source that does not run. -/
def ofRejection : Rejection → Outcome
  | .unreadable error => .failed (.unreadable error)
  | .invalid findings => .failed (.invalid findings)

end Outcome

namespace Session

/-- A session with an empty store. -/
def start {σ : Type} (world : σ) : Session σ :=
  ⟨.empty, world⟩

/-- Holds the dialogue of an execution. -/
def hold {σ : Type} (console : Console σ) (execution : Execution) (session : Session σ) :
    Ending × Session σ :=
  let ((ending, store), world) := (execution session.store).run console session.world
  (ending, ⟨store, world⟩)

/-- Runs a program whatever the checks find. -/
def runProgram {σ : Type} (console : Console σ) (limit : Nat) (program : Program)
    (session : Session σ) : Outcome × Session σ :=
  let (ending, session) := session.hold console (program.execute limit)
  (.ofEnding ending, session)

/-- Runs a program unless the checks find an error. -/
def runChecked {σ : Type} (console : Console σ) (limit : Nat) (program : Program)
    (session : Session σ) : Outcome × Session σ :=
  if program.errors.isEmpty then session.runProgram console limit program
  else (.failed (.invalid program.errors), session)

/-- Reads a source, and runs its program unless the checks find an error. -/
def runSource {σ : Type} (console : Console σ) (limit : Nat) (source : String)
    (session : Session σ) : Outcome × Session σ :=
  match Program.prepare source with
  | .error rejection => (.ofRejection rejection, session)
  | .ok program => session.runProgram console limit program

end Session

end Letterline
