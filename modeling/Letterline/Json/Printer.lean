/-
Module: Letterline.Json.Printer
Purpose: JSON texts, compact and indented.
Trusted boundary: none
Main exports:
  Json.Style, Json.write, Json.text
-/
import Letterline.Json
import Letterline.Double.Layout

namespace Letterline.Json

/-!
A printer puts the text of a value in front of the text that follows it.  The two
styles differ only in the blanks between the marks.
-/

/-- How a JSON text is laid out. -/
inductive Style where
  | compact
  | indented
deriving Repr, DecidableEq

/-- JSON numbers are positional from `0.00001` to below `10 ^ 16`, keep their
fraction, and sign the exponent.  What is not finite has no number. -/
def numberLayout : Double.Layout where
  positionalFrom := -5
  positionalBelow := 16
  keepsFraction := true
  signsExponent := true
  tie := .even
  infinity := "null"
  notANumber := "null"

/-- A hexadecimal digit in lower case. -/
def hexDigit (value : Nat) : Char :=
  if value < 10 then Char.ofNat (48 + value) else Char.ofNat (87 + value)

/-- A character inside a string: quotes, backslashes and control characters are
escaped. -/
def escaped (c : Char) : List Char :=
  if c = '"' then ['\\', '"']
  else if c = '\\' then ['\\', '\\']
  else if c = '\n' then ['\\', 'n']
  else if c = '\r' then ['\\', 'r']
  else if c = '\t' then ['\\', 't']
  else if c = '\x08' then ['\\', 'b']
  else if c = '\x0c' then ['\\', 'f']
  else if c.toNat < 32 then
    ['\\', 'u', '0', '0', hexDigit (c.toNat / 16), hexDigit (c.toNat % 16)]
  else [c]

/-- A quoted string. -/
def writeString (value : String) (rest : List Char) : List Char :=
  '"' :: (value.toList.flatMap escaped ++ '"' :: rest)

/-- A number; what is not finite is written `null`. -/
def writeDouble (value : Double) (rest : List Char) : List Char :=
  match value with
  | .finite .. => numberLayout.write value ++ rest
  | _ => 'n' :: 'u' :: 'l' :: 'l' :: rest

/-- A new line indented by two blanks a level, in the indented style. -/
def lineBreak (style : Style) (level : Nat) (rest : List Char) : List Char :=
  match style with
  | .compact => rest
  | .indented => '\n' :: (List.replicate (2 * level) ' ' ++ rest)

/-- The mark between a name and its value. -/
def writeColon (style : Style) (rest : List Char) : List Char :=
  match style with
  | .compact => ':' :: rest
  | .indented => ':' :: ' ' :: rest

mutual

/-- The text of a value in front of `rest`. -/
def write (style : Style) (level : Nat) : Json → List Char → List Char
  | .null, rest => 'n' :: 'u' :: 'l' :: 'l' :: rest
  | .bool true, rest => 't' :: 'r' :: 'u' :: 'e' :: rest
  | .bool false, rest => 'f' :: 'a' :: 'l' :: 's' :: 'e' :: rest
  | .int value, rest => (toString value).toList ++ rest
  | .double value, rest => writeDouble value rest
  | .string value, rest => writeString value rest
  | .array [], rest => '[' :: ']' :: rest
  | .array (item :: items), rest =>
      '[' :: lineBreak style (level + 1)
        (write style (level + 1) item (writeItems style level items rest))
  | .object [], rest => '\x7b' :: '\x7d' :: rest
  | .object ((name, value) :: fields), rest =>
      '\x7b' :: lineBreak style (level + 1)
        (writeString name (writeColon style
          (write style (level + 1) value (writeFields style level fields rest))))

/-- The items after the first, and the closing bracket. -/
def writeItems (style : Style) (level : Nat) : List Json → List Char → List Char
  | [], rest => lineBreak style level (']' :: rest)
  | item :: items, rest =>
      ',' :: lineBreak style (level + 1)
        (write style (level + 1) item (writeItems style level items rest))

/-- The fields after the first, and the closing brace. -/
def writeFields (style : Style) (level : Nat) : List (String × Json) → List Char → List Char
  | [], rest => lineBreak style level ('\x7d' :: rest)
  | (name, value) :: fields, rest =>
      ',' :: lineBreak style (level + 1)
        (writeString name (writeColon style
          (write style (level + 1) value (writeFields style level fields rest))))

end

/-- The text of a value. -/
def text (style : Style) (value : Json) : String :=
  String.ofList (write style 0 value [])

end Letterline.Json
