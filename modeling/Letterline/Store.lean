/-
Module: Letterline.Store
Purpose: The variables of a running program and the frames that own their names.
Trusted boundary: none
Main exports:
  Variable, Store, Store.declare, Store.set, Store.lookup?, Store.push, Store.pop
-/
import Letterline.Value

namespace Letterline

/-!
All variables live in one table.  A frame records the names that were declared while
it was on top, and popping it removes the variables of these names, wherever they
were declared first.  There is no shadowing: a second declaration of a name replaces
its value, and nothing brings the earlier one back.
-/

/-- A variable. -/
structure Variable where
  name : String
  value : Value
deriving DecidableEq

/-- The variables and the open frames. -/
structure Store where
  /-- The variables in the order of their first declaration. -/
  table : List Variable
  /-- The names of each open frame in the order of declaration, top frame first. -/
  frames : List (List String)
deriving DecidableEq

namespace Store

/-- No variables and no frames. -/
def empty : Store :=
  ⟨[], []⟩

/-- The variable of a name. -/
def lookup? (name : String) (store : Store) : Option Variable :=
  store.table.find? (·.name == name)

/-- Says whether a name has a variable. -/
def isDeclared (name : String) (store : Store) : Bool :=
  (store.lookup? name).isSome

/-- Changes the value of a name in a table. -/
def replace (name : String) (value : Value) (table : List Variable) : List Variable :=
  table.map fun entry =>
    if entry.name = name then { entry with value := value } else entry

/-- Records a name in the top frame, which is opened if there is none. -/
def record (name : String) : List (List String) → List (List String)
  | [] => [[name]]
  | top :: rest => (if name ∈ top then top else top ++ [name]) :: rest

/-- Declares a variable, or declares it again with another value. -/
def declare (name : String) (value : Value) (store : Store) : Store where
  table :=
    if store.isDeclared name then replace name value store.table
    else store.table ++ [⟨name, value⟩]
  frames := record name store.frames

/-- Changes the value of a declared variable. -/
def set (name : String) (value : Value) (store : Store) : Store :=
  { store with table := replace name value store.table }

/-- Opens a frame. -/
def push (store : Store) : Store :=
  { store with frames := [] :: store.frames }

/-- The names that the top frame owns. -/
def topNames (store : Store) : List String :=
  store.frames.head?.getD []

/-- Closes the top frame and removes the variables of its names.  Without a frame
nothing changes. -/
def pop (store : Store) : Store :=
  match store.frames with
  | [] => store
  | top :: rest => ⟨store.table.filter (·.name ∉ top), rest⟩

/-- The number of open frames. -/
def depth (store : Store) : Nat :=
  store.frames.length

/-- The number of variables. -/
def size (store : Store) : Nat :=
  store.table.length

/-- The text of a variable, which is empty before evaluation. -/
def textOf (entry : Variable) : String :=
  (entry.value.scalar?.map Scalar.text).getD ""

end Store

end Letterline
