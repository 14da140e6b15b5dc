/-
Module: Letterline.FileTree
Purpose: Paths, and the files of a working directory.
Trusted boundary: none
Main exports:
  FileEntry, PathName.extension?, FileTree, FileTree.look
-/

namespace Letterline

/-- What a path leads to. -/
inductive FileEntry where
  | missing
  | directory
  | file (bytes : ByteArray)

namespace PathName

/-- The parts of a path between slashes. -/
def parts (path : String) : List String :=
  path.splitOn "/"

/-- The last part that names something.  A path that ends in `..` names nothing. -/
def fileName? (path : String) : Option String :=
  match ((parts path).filter fun part => part != "" && part != ".").getLast? with
  | some ".." => none
  | name => name

/-- What follows the last dot of a name.  A dot at the front does not count. -/
def extensionOf? (name : List Char) : Option (List Char) :=
  let reversed := name.reverse
  let stem := (reversed.dropWhile (· != '.')).drop 1
  if stem.isEmpty then none else some (reversed.takeWhile (· != '.')).reverse

/-- The extension of the name that a path ends in. -/
def extension? (path : String) : Option String :=
  (fileName? path).bind fun name => (extensionOf? name.toList).map String.ofList

end PathName

/-- The entries of a working directory and what is below it, each under the parts of
its path.  Directories that lead to an entry need none of their own. -/
structure FileTree where
  entries : List (List String × FileEntry)

namespace FileTree

/-- What stands at a place. -/
def entryAt (tree : FileTree) (place : List String) : FileEntry :=
  match tree.entries.find? (·.1 == place) with
  | some (_, entry) => entry
  | none =>
      if tree.entries.any fun (path, _) => place.isPrefixOf path then .directory else .missing

/-- What stands outside of the working directory: the directories that lead to it,
as far as a path without names reaches them, and nothing else. -/
def outside (parts : List String) : FileEntry :=
  if parts.all fun part => part == "" || part == "." || part == ".." then .directory
  else .missing

/-- Goes along the parts of a path from a directory.  Empty parts and single dots
stay where they are; two dots lead up. -/
def walk (tree : FileTree) : (place : List String) → List String → FileEntry
  | place, [] => if place.isEmpty then .directory else tree.entryAt place
  | place, part :: rest =>
      let here := if place.isEmpty then .directory else tree.entryAt place
      match here with
      | .directory =>
          if part = "" ∨ part = "." then walk tree place rest
          else if part = ".." then
            if place.isEmpty then outside rest else walk tree place.dropLast rest
          else walk tree (place ++ [part]) rest
      | _ => .missing

/-- What a path leads to.  The empty path leads nowhere, and one that starts with a
slash outside. -/
def look (tree : FileTree) (path : String) : FileEntry :=
  match PathName.parts path with
  | [""] => .missing
  | "" :: rest => outside rest
  | parts => tree.walk [] parts

end FileTree

end Letterline
