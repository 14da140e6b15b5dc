/-
Module: Letterline.Main
Purpose: The command line: files, variables and the standard streams.
Trusted boundary: input and output
Main exports:
  main
-/
import Letterline.CommandLine

namespace Letterline.Main

/-- What a path leads to. -/
def look (path : String) : IO FileEntry := do
  try
    return .file (← IO.FS.readBinFile path)
  catch
    | .inappropriateType .. => return .directory
    | _ => return .missing

/-- The file entries of some paths. -/
def lookAll (paths : List String) : IO (List (String × FileEntry)) :=
  paths.mapM fun path => return (path, ← look path)

/-- The entry of a path among others. -/
def entryOf (entries : List (String × FileEntry)) (path : String) : FileEntry :=
  ((entries.find? (·.1 == path)).map (·.2)).getD .missing

/-- A variable written as `NAME=value`. -/
def assignmentOf? (assignment : String) : Option (String × String) :=
  match assignment.splitOn "=" with
  | name :: part :: parts => some (name, "=".intercalate (part :: parts))
  | _ => none

/-- The variables of the environment. -/
def environment : IO Environment := do
  match ← look "/proc/self/environ" with
  | .file bytes =>
      return (((String.fromUTF8? bytes).getD "").splitOn "\x00").filterMap assignmentOf?
  | _ => return []

/-- Does something that can fail, with the reason if it does. -/
def attempt {α : Type} (action : IO α) : IO (Except String α) := do
  try
    return .ok (← action)
  catch error =>
    return .error (toString error)

/-- Reads bytes up to a line feed or the end of the input. -/
partial def readLine (input : IO.FS.Stream) (sofar : ByteArray) : IO ByteArray := do
  let bytes ← input.read 1
  if bytes.isEmpty then
    return sofar
  else if bytes.toList.contains 10 then
    return sofar ++ bytes
  else
    readLine input (sofar ++ bytes)

/-- Asks for a line on the standard streams. -/
def ask (prompt : String) : IO (Except String String) := do
  let errors ← IO.getStderr
  errors.putStr (Terminal.promptLine prompt)
  errors.flush
  match ← attempt (do readLine (← IO.getStdin) .empty) with
  | .ok line => return inputText line
  | .error reason => return .error reason

/-- Holds a dialogue on the standard streams. -/
def converse {α : Type} (prompt : String) : Dialogue α → IO α
  | .done result => return result
  | .ask next => do converse prompt (next (← ask prompt))
  | .tell text next => do converse prompt (next (← attempt do (← IO.getStdout).putStr text))
  | .flush next => do converse prompt (next (← attempt do (← IO.getStdout).flush))

/-- More turns than a loop takes in practice. -/
def limit : Nat :=
  1000000000000000000

end Letterline.Main

open Letterline Letterline.Main in
/-- Runs the command that the arguments ask for. -/
def main (arguments : List String) : IO UInt32 := do
  match Invocation.ofArguments? none arguments with
  | none =>
      (← IO.getStderr).putStr usage
      return usageCode.toUInt32
  | some invocation =>
      let entries ← lookAll invocation.files
      let plan := invocation.plan limit (entryOf entries) (← environment)
      let exit ← converse plan.prompt plan.dialogue
      (← IO.getStdout).flush
      (← IO.getStderr).putStr exit.report
      return exit.code.toUInt32
