/-
Module: Letterline.Literal
Purpose: The kinds of literals and what their contents denote.
Trusted boundary: none
Main exports:
  LiteralKind, LiteralKind.read?, unescapeString, unescapeChar?
-/
import Letterline.Scalar.Reading

namespace Letterline

/-- A kind of literal. -/
inductive LiteralKind where
  | integer
  | double
  | string
  | character
  | boolean
deriving Repr, DecidableEq

/-- Replaces every occurrence of two characters in a row, from left to right, by one
character. -/
def replacePair (first second replacement : Char) : List Char → List Char
  | c :: d :: rest =>
      if c = first ∧ d = second then
        replacement :: replacePair first second replacement rest
      else
        c :: replacePair first second replacement (d :: rest)
  | short => short

/-- The text that the contents of a string literal denote.  The escapes are replaced
one after the other in the whole text, so that the result of an earlier one takes
part in a later one. -/
def unescapeString (contents : String) : String :=
  contents.toList
    |> replacePair 'g' 'g' 'g'
    |> replacePair 'g' 'n' '\n'
    |> replacePair 'g' 'l' ' '
    |> replacePair 'g' 's' 's'
    |> String.ofList

/-- The character that the contents of a character literal denote: an escape if they
are one, or else their first character. -/
def unescapeChar? (contents : String) : Option Char :=
  match contents.toList with
  | ['g', 'c'] => some 'c'
  | ['g', 'n'] => some '\n'
  | ['g', 'l'] => some ' '
  | ['g', 'g'] => some 'g'
  | text => text.head?

namespace LiteralKind

/-- The kind of literal that a delimiter opens. -/
def ofMark? : Char → Option LiteralKind
  | 'i' => some .integer
  | 'd' => some .double
  | 's' => some .string
  | 'c' => some .character
  | 'b' => some .boolean
  | _ => none

/-- The name of a kind of literal in messages. -/
def name : LiteralKind → String
  | .integer => "integer"
  | .double => "double"
  | .string => "string"
  | .character => "character"
  | .boolean => "boolean"

/-- The scalar that the contents of a literal denote. -/
def read? (kind : LiteralKind) (contents : String) : Option Scalar :=
  match kind with
  | .integer => (Scalar.readInt? contents).map .int
  | .double => (Scalar.readDouble? contents).map .double
  | .string => some (.string (unescapeString contents))
  | .character => (unescapeChar? contents).map .char
  | .boolean => (Scalar.readBool? contents).map .bool

end LiteralKind

end Letterline
