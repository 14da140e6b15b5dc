/-
Module: Letterline.Config
Purpose: Configuration values, and the layering of tables.
Trusted boundary: none
Main exports:
  Config, Config.insert, Config.value?, Config.record?, Config.text?, Config.flag?
-/
import Letterline.Double.Layout

namespace Letterline

/-!
Configuration comes in layers.  A table laid over another replaces its values key by
key, at every depth; keys are the same whatever their case.  A value is turned into
a text or a flag only when it is used.
-/

/-- A configuration value. -/
inductive Config where
  | nil
  | flag (value : Bool)
  | integer (value : Int)
  | number (value : Double)
  | text (value : String)
  | list (items : List Config)
  | table (entries : List (String × Config))

namespace Config

/-- A key in lower case.  The keys that mean something are ASCII. -/
def loweredKey (key : String) : String :=
  key.map Char.toLower

/-- The value of a key. -/
def lookup? (key : String) : List (String × Config) → Option Config
  | [] => none
  | (name, value) :: rest => if name = key then some value else lookup? key rest

/-- Puts a value in the place of a key, or behind the others. -/
def put (key : String) (value : Config) : List (String × Config) → List (String × Config)
  | [] => [(key, value)]
  | (name, old) :: rest =>
      if name = key then (name, value) :: rest else (name, old) :: put key value rest

/-- The entries of a table.  Any other value has none. -/
def entries : Config → List (String × Config)
  | .table entries => entries
  | _ => []

mutual

/-- Lays a value over the value of a key.  A table is laid over key by key. -/
def insert (key : String) : (incoming base : Config) → Config
  | .table incoming, base =>
      let inner := (lookup? (loweredKey key) base.entries).getD (.table [])
      .table (put (loweredKey key) (insertAll incoming inner) base.entries)
  | incoming, base => .table (put (loweredKey key) incoming base.entries)

/-- Lays entries over a value, in order. -/
def insertAll : (incoming : List (String × Config)) → (base : Config) → Config
  | [], base => base
  | (key, value) :: rest, base => insertAll rest (insert key value base)

end

/-- Lays a value over the value at a path. -/
def insertAt : (path : List String) → (incoming base : Config) → Config
  | [], _, base => base
  | [key], incoming, base => insert key incoming base
  | key :: rest, incoming, base =>
      let inner := (lookup? key base.entries).getD (.table [])
      .table (put key (insertAt rest incoming inner) base.entries)

/-- The value of a key in a table. -/
def value? (key : String) (config : Config) : Option Config :=
  lookup? key config.entries

/-- The values of a record by name and in order.  A record is written as a table, or
as a list that begins with its values. -/
def record? (names : List String) : Config → Option (List Config)
  | .table entries => names.mapM fun name => lookup? name entries
  | .list items => if names.length ≤ items.length then some (items.take names.length) else none
  | _ => none

/-- A number in a configuration is written positionally, without a needless
fraction. -/
def numberLayout : Double.Layout where
  positionalFrom := -400
  positionalBelow := 400
  keepsFraction := false
  signsExponent := false
  tie := .up
  infinity := "inf"
  notANumber := "NaN"

/-- A value used as a text. -/
def text? : Config → Option String
  | .text value => some value
  | .flag value => some (if value then "true" else "false")
  | .integer value => some (toString value)
  | .number value => some (String.ofList (numberLayout.write value))
  | _ => none

/-- A word used as a flag, in any case. -/
def flagOfWord? (word : String) : Option Bool :=
  match word.map Char.toLower with
  | "1" | "true" | "on" | "yes" => some true
  | "0" | "false" | "off" | "no" => some false
  | _ => none

/-- A value used as a flag.  A number is true unless it is zero. -/
def flag? : Config → Option Bool
  | .flag value => some value
  | .integer value => some (value != 0)
  | .number value => some (value.place? != some 0)
  | .text word => flagOfWord? word
  | _ => none

end Config

end Letterline
