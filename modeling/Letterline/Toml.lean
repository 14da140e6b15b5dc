/-
Module: Letterline.Toml
Purpose: TOML documents as trees that know how each table was defined.
Trusted boundary: none
Main exports:
  Toml, Toml.Form, Toml.insertKey?, Toml.openTable?, Toml.openItem?, Toml.toConfig
-/
import Letterline.Config

namespace Letterline

/-!
A table of a TOML document can be defined once: by a header, by dotted keys, or
by neither if it is only passed through on the way to another table.  The form of
definition decides what may still be added.
-/

/-- How a table came to be. -/
inductive Toml.Form where
  /-- A header defines it. -/
  | header
  /-- A header for a table inside it implies it. -/
  | implied
  /-- Dotted keys define it. -/
  | dotted
deriving Repr, DecidableEq

/-- A node of a TOML document. -/
inductive Toml where
  | leaf (value : Config)
  | table (form : Toml.Form) (entries : List (String × Toml))
  /-- The items of an array of tables, the latest first. -/
  | sequence (items : List (List (String × Toml)))

namespace Toml

/-- The node of a key. -/
def lookup? (key : String) : List (String × Toml) → Option Toml
  | [] => none
  | (name, node) :: rest => if name = key then some node else lookup? key rest

/-- Puts a node in the place of a key, or behind the others. -/
def put (key : String) (node : Toml) : List (String × Toml) → List (String × Toml)
  | [] => [(key, node)]
  | (name, old) :: rest =>
      if name = key then (name, node) :: rest else (name, old) :: put key node rest

/-- Changes the table at a path, where tables that are not there yet are made.  With
`dotted` the path is that of dotted keys, which do not lead into a table that a
header defines.  In an array of tables the path leads into the latest item. -/
def change? (dotted : Bool)
    (change : Form → List (String × Toml) → Option (List (String × Toml))) :
    (path : List String) → Form → List (String × Toml) → Option (List (String × Toml))
  | [], form, entries => change form entries
  | key :: rest, _, entries =>
      match lookup? key entries with
      | none => do
          let form := if dotted then Form.dotted else Form.implied
          let inner ← change? dotted change rest form []
          some (put key (.table form inner) entries)
      | some (.table form inner) =>
          if dotted && form == .header then none
          else do
            let inner ← change? dotted change rest form inner
            some (put key (.table form inner) entries)
      | some (.sequence (latest :: earlier)) => do
          let latest ← change? dotted change rest .header latest
          some (put key (.sequence (latest :: earlier)) entries)
      | some _ => none

/-- Adds a key that is not there yet to the table at a dotted path. -/
def insertKey? (path : List String) (key : String) (value : Config) (form : Form)
    (entries : List (String × Toml)) : Option (List (String × Toml)) :=
  change? true
    (fun form entries =>
      if (form == .dotted) == path.isEmpty then none
      else match lookup? key entries with
        | none => some (put key (.leaf value) entries)
        | some _ => none)
    path form entries

/-- Opens the table of a header. -/
def openTable? (path : List String) (key : String) (entries : List (String × Toml)) :
    Option (List (String × Toml)) :=
  change? false
    (fun _ entries =>
      match lookup? key entries with
      | none => some (put key (.table .header []) entries)
      | some (.table .implied inner) => some (put key (.table .header inner) entries)
      | some _ => none)
    path .header entries

/-- Opens the next item of an array of tables. -/
def openItem? (path : List String) (key : String) (entries : List (String × Toml)) :
    Option (List (String × Toml)) :=
  change? false
    (fun _ entries =>
      match lookup? key entries with
      | none => some (put key (.sequence [[]]) entries)
      | some (.sequence items) => some (put key (.sequence ([] :: items)) entries)
      | some _ => none)
    path .header entries

mutual

/-- A node as a configuration value. -/
def toConfig : Toml → Config
  | .leaf value => value
  | .table _ entries => .table (entriesToConfig entries)
  | .sequence items => .list (itemsToConfig items).reverse

/-- Entries as configuration values. -/
def entriesToConfig : List (String × Toml) → List (String × Config)
  | [] => []
  | (key, node) :: rest => (key, node.toConfig) :: entriesToConfig rest

/-- Items as configuration values, in the same order. -/
def itemsToConfig : List (List (String × Toml)) → List Config
  | [] => []
  | entries :: rest => .table (entriesToConfig entries) :: itemsToConfig rest

end

end Toml

end Letterline
