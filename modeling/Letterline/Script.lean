/-
Module: Letterline.Script
Purpose: A console that is scripted in advance.
Trusted boundary: none
Main exports:
  Script, Script.console
-/
import Letterline.Dialogue

namespace Letterline

/-!
A script holds the answers to requests for input and says when the console breaks.
It also keeps what was written.
-/

/-- A scripted console. -/
structure Script where
  /-- The answers to requests to come.  Without one the answer is empty. -/
  answers : List String
  /-- The request that fails, counted from zero. -/
  failingRequest : Option Nat
  /-- The number of written lines after which writing fails. -/
  lineLimit : Option Nat
  /-- Flushing fails. -/
  failsFlush : Bool
  /-- The number of requests so far, with the one that failed. -/
  requests : Nat
  /-- What was written. -/
  output : String
  /-- The number of lines written. -/
  lines : Nat
deriving Repr, DecidableEq

namespace Script

/-- A script that gives these answers and never fails. -/
def ofAnswers (answers : List String) : Script :=
  ⟨answers, none, none, false, 0, "", 0⟩

/-- Answers a request.  A request that fails is counted and uses up no answer. -/
def answer (script : Script) : Except String String × Script :=
  let counted := { script with requests := script.requests + 1 }
  if script.failingRequest = some script.requests then
    (.error "input closed", counted)
  else
    (.ok (script.answers.head?.getD ""), { counted with answers := script.answers.tail })

/-- Says whether writing fails from now on. -/
def isFull (script : Script) : Bool :=
  match script.lineLimit with
  | none => false
  | some limit => decide (limit ≤ script.lines)

/-- Takes a text unless the script is full. -/
def write (text : String) (script : Script) : Except String Unit × Script :=
  if script.isFull then
    (.error "output closed", script)
  else
    (.ok (), { script with
      output := script.output ++ text
      lines := script.lines + text.toList.count '\n' })

/-- Takes a request to flush. -/
def flush (script : Script) : Except String Unit × Script :=
  (if script.failsFlush then .error "flush failed" else .ok (), script)

/-- The console of a script. -/
def console : Console Script :=
  ⟨answer, write, flush⟩

/-- The script with the record of what was written emptied. -/
def forgetOutput (script : Script) : Script :=
  { script with output := "" }

end Script

end Letterline
