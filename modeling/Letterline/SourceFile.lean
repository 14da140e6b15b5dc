/-
Module: Letterline.SourceFile
Purpose: The program line of a source file.
Trusted boundary: none
Main exports:
  SourceFile.Requirement, SourceFile.LoadError, SourceFile.firstLine, SourceFile.load
-/
import Letterline.FileTree

namespace Letterline.SourceFile

/-!
A program is the first line of its file.  The file as a whole has to be text.
-/

/-- What the name of a source file has to look like. -/
structure Requirement where
  /-- The extension, without its dot. -/
  extension : String
  /-- Other extensions are refused. -/
  isRequired : Bool
deriving Repr, DecidableEq

/-- Why a file has no program line. -/
inductive LoadError where
  | missing (path : String)
  | wrongExtension (path expected : String)
  | unreadable (path reason : String)
  | empty (path : String)
deriving Repr, DecidableEq

/-- The text that reports an error. -/
def LoadError.message : LoadError → String
  | .missing path => "The provided file doesn't exist: " ++ path
  | .wrongExtension path expected =>
      "The provided file is not a ." ++ expected ++ " file: " ++ path
  | .unreadable path reason => "Couldn't read " ++ path ++ ": " ++ reason
  | .empty path => "The provided file is empty: " ++ path

/-- The text of an entry, or the reason why it has none. -/
def textOf (entry : FileEntry) : Except String String :=
  match entry with
  | .missing => .error "No such file or directory (os error 2)"
  | .directory => .error "Is a directory (os error 21)"
  | .file bytes =>
      match String.fromUTF8? bytes with
      | some text => .ok text
      | none => .error "stream did not contain valid UTF-8"

/-- The first line of a text, without the line feed that ends it and a carriage
return before that. -/
def firstLine (text : List Char) : List Char :=
  let line := text.takeWhile (· != '\n')
  if line.length < text.length && line.getLast? == some '\r' then line.dropLast else line

/-- The program line of what a path leads to. -/
def load (path : String) (requirement : Requirement) (entry : FileEntry) :
    Except LoadError String :=
  match entry with
  | .missing => .error (.missing path)
  | entry =>
      if requirement.isRequired &&
          (PathName.extension? path).getD "" != requirement.extension then
        .error (.wrongExtension path requirement.extension)
      else
        match textOf entry with
        | .error reason => .error (.unreadable path reason)
        | .ok text =>
            let line := firstLine text.toList
            if line.isEmpty then .error (.empty path) else .ok (String.ofList line)

end Letterline.SourceFile
