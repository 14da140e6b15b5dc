/-
Module: Letterline.Cursor
Purpose: A position in the one line of a source text.
Trusted boundary: none
Main exports:
  Cursor, Cursor.ofSource, Cursor.next, Cursor.index, Cursor.offset,
  Cursor.readDelimited, Cursor.readIdentifier
-/

namespace Letterline

/-!
A cursor stands on a character of a source that is not empty.  It keeps what it has
passed, nearest first, and what is still ahead, so that no position is outside the
source.  Going on from the last character does not move it but marks it exhausted.
-/

/-- A position in a source. -/
structure Cursor where
  /-- The characters before the current one, nearest first. -/
  before : List Char
  /-- The character that the cursor stands on. -/
  current : Char
  /-- The characters after the current one. -/
  after : List Char
  /-- The last character has been stepped over. -/
  exhausted : Bool
  /-- Only on the last character can a cursor be exhausted. -/
  last_of_exhausted : exhausted = true → after = []

namespace Cursor

/-- Why a source has no cursor. -/
inductive Refusal where
  | empty
  | space (index : Nat)
deriving Repr, DecidableEq

/-- The cursor on the first character.  A source has a character and no space. -/
def ofSource (source : String) : Except Refusal Cursor :=
  match source.toList with
  | [] => .error .empty
  | first :: rest =>
      match (first :: rest).findIdx? (· == ' ') with
      | some index => .error (.space index)
      | none => .ok ⟨[], first, rest, false, by simp⟩

/-- The cursor one character on, or exhausted if it stands on the last one. -/
def next (cursor : Cursor) : Cursor :=
  match last : cursor.after with
  | [] => { cursor with exhausted := true, last_of_exhausted := fun _ => last }
  | c :: rest => ⟨cursor.current :: cursor.before, c, rest, false, by simp⟩

/-- The cursor some characters on. -/
def advance : Nat → Cursor → Cursor
  | 0, cursor => cursor
  | count + 1, cursor => advance count cursor.next

/-- The character after the current one, or the current one if it is the last. -/
def peek (cursor : Cursor) : Char :=
  cursor.after.head?.getD cursor.current

/-- The character before the current one, or the current one if it is the first. -/
def previous (cursor : Cursor) : Char :=
  cursor.before.head?.getD cursor.current

/-- Says whether the cursor is not on the last character. -/
def hasNext (cursor : Cursor) : Bool :=
  !cursor.after.isEmpty

/-- The index of the current character. -/
def index (cursor : Cursor) : Nat :=
  cursor.before.length

/-- The number of characters that have been read: the index, or the length once the
cursor is exhausted. -/
def offset (cursor : Cursor) : Nat :=
  cursor.index + if cursor.exhausted then 1 else 0

/-- The number of characters that are still to be read. -/
def remaining (cursor : Cursor) : Nat :=
  if cursor.exhausted then 0 else cursor.after.length + 1

/-- The length of the source. -/
def length (cursor : Cursor) : Nat :=
  cursor.before.length + 1 + cursor.after.length

/-! ### Literals -/

/-- The letter that escapes a delimiter. -/
def escapeLetter : Char := 'g'

/-- Separates the contents of a literal from what follows its closing delimiter.

A delimiter is part of the contents if it follows an escape letter of the contents
that does not itself follow one.  `escaping` says whether this is so here, and
`last` is the character before. -/
def splitLiteral (delimiter : Char) (escaping : Bool) (last : Char) :
    List Char → Option (List Char × List Char)
  | [] => none
  | c :: rest =>
      if c = delimiter ∧ escaping = false then
        some ([], rest)
      else
        (splitLiteral delimiter (c == escapeLetter && last != escapeLetter) c rest).map
          fun (contents, tail) => (c :: contents, tail)

/-- Reads the contents between the current character and its next occurrence, and
stops there.  Without another occurrence there is no literal and the cursor stops on
the last character. -/
def readDelimited (cursor : Cursor) : Option (List Char) × Cursor :=
  match splitLiteral cursor.current false cursor.current cursor.after with
  | some (contents, _) => (some contents, cursor.advance (contents.length + 1))
  | none => (none, cursor.advance cursor.after.length)

/-! ### Names -/

/-- The characters of a name in a source. -/
def isNameChar (c : Char) : Bool :=
  c.isUpper || c.isDigit

/-- Reads a name, which is empty if none stands here, and gives it in lower case.

With `keepPosition` the cursor stops on the last character of the name, else behind
it.  A name that ends the source is stepped over in both cases. -/
def readIdentifier (keepPosition : Bool) (cursor : Cursor) : String × Cursor :=
  if cursor.exhausted || !isNameChar cursor.current then
    ("", cursor)
  else
    let tail := cursor.after.takeWhile isNameChar
    let last := cursor.advance tail.length
    (String.ofList ((cursor.current :: tail).map Char.toLower),
      if keepPosition && last.hasNext then last else last.next)

end Cursor

end Letterline
