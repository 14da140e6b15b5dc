/-
Module: Letterline.Parser
Purpose: Parsers: steps that read from a cursor and can fail.
Trusted boundary: none
Main exports:
  Parser, Parser.step, Parser.expect, Parser.literalContents, Parser.name
-/
import Letterline.ParseError

namespace Letterline

/-!
A parser takes a cursor and leaves it on the first character that it did not read.
A failure too says where the cursor stopped.
-/

/-- A step that reads from a cursor. -/
abbrev Parser (α : Type) : Type :=
  EStateM ParseError Cursor α

namespace Parser

/-- The cursor as it stands. -/
def cursor : Parser Cursor :=
  get

/-- Goes one character on. -/
def step : Parser Unit :=
  modify Cursor.next

/-- Fails because of what stands under the cursor, or because nothing does. -/
def unexpected {α : Type} (expected : Expectation) : Parser α := do
  let here ← cursor
  throw (.unexpected expected (if here.exhausted then none else some here.current) here.offset)

/-- Steps over `mark`, which has to stand here. -/
def expect (mark : Char) (expected : Expectation) : Parser Unit := do
  let here ← cursor
  if here.exhausted || here.current != mark then
    unexpected expected
  else
    step

/-- Reads the contents of the literal that opens here and stops on its closing
delimiter. -/
def literalContents : Parser String := do
  let here ← cursor
  let (contents, there) := here.readDelimited
  set there
  match contents with
  | some contents => pure (String.ofList contents)
  | none => throw (.unterminatedLiteral here.current here.index)

/-- Reads a name. -/
def name (keepPosition : Bool) : Parser String := do
  let here ← cursor
  let (name, there) := here.readIdentifier keepPosition
  set there
  pure name

/-- The result of a parser on a cursor. -/
def runOn {α : Type} (parser : Parser α) (cursor : Cursor) : Except ParseError (α × Cursor) :=
  match parser cursor with
  | .ok result there => .ok (result, there)
  | .error error _ => .error error

/-- The result of a parser from the start of a source. -/
def runFrom {α : Type} (parser : Parser α) (source : String) :
    Except ParseError (α × Cursor) :=
  match Cursor.ofSource source with
  | .ok cursor => parser.runOn cursor
  | .error refusal => .error (.ofRefusal refusal)

end Parser

end Letterline
