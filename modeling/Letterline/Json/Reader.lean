/-
Module: Letterline.Json.Reader
Purpose: Reading JSON texts.
Trusted boundary: none
Main exports:
  Json.readValue, Json.ofText?
-/
import Letterline.Json
import Letterline.Double.Numeral

namespace Letterline.Json

/-!
Every reader takes the text that is left and returns what remains after the value.
A reader is given fuel, of which a text needs no more than twice its length and two.
-/

/-- The blanks that may stand between the marks of a JSON text. -/
def isBlank (c : Char) : Bool :=
  c == ' ' || c == '\n' || c == '\r' || c == '\t'

/-- The value of a hexadecimal digit. -/
def hexValue? (c : Char) : Option Nat :=
  if '0' ≤ c ∧ c ≤ '9' then some (c.toNat - 48)
  else if 'a' ≤ c ∧ c ≤ 'f' then some (c.toNat - 87)
  else if 'A' ≤ c ∧ c ≤ 'F' then some (c.toNat - 55)
  else none

/-- The number that four hexadecimal digits write. -/
def hexUnit? : List Char → Option (Nat × List Char)
  | a :: b :: c :: d :: rest => do
      let a ← hexValue? a
      let b ← hexValue? b
      let c ← hexValue? c
      let d ← hexValue? d
      some (((a * 16 + b) * 16 + c) * 16 + d, rest)
  | _ => none

/-- The character with a codepoint. -/
def charAt? (codepoint : Nat) : Option Char :=
  if valid : codepoint.isValidChar then some (Char.ofNatAux codepoint valid) else none

/-- The character of an escape that gives its codepoint.  A codepoint past the
first plane takes two escapes, a high half and a low one. -/
def escapedUnit? (text : List Char) : Option (Char × List Char) := do
  let (high, rest) ← hexUnit? text
  if 0xD800 ≤ high ∧ high < 0xDC00 then
    match rest with
    | '\\' :: 'u' :: rest => do
        let (low, rest) ← hexUnit? rest
        if 0xDC00 ≤ low ∧ low < 0xE000 then
          let c ← charAt? (0x10000 + (high - 0xD800) * 0x400 + (low - 0xDC00))
          some (c, rest)
        else none
    | _ => none
  else
    let c ← charAt? high
    some (c, rest)

/-- The character that a letter after a backslash stands for. -/
def shortEscape? : Char → Option Char
  | '"' => some '"'
  | '\\' => some '\\'
  | '/' => some '/'
  | 'b' => some '\x08'
  | 'f' => some '\x0c'
  | 'n' => some '\n'
  | 'r' => some '\r'
  | 't' => some '\t'
  | _ => none

/-- The characters of a string up to its closing quote. -/
def readString : (fuel : Nat) → List Char → Option (List Char × List Char)
  | 0, _ => none
  | _ + 1, [] => none
  | _ + 1, '"' :: rest => some ([], rest)
  | fuel + 1, '\\' :: 'u' :: rest => do
      let (c, rest) ← escapedUnit? rest
      let (cs, rest) ← readString fuel rest
      some (c :: cs, rest)
  | fuel + 1, '\\' :: letter :: rest => do
      let c ← shortEscape? letter
      let (cs, rest) ← readString fuel rest
      some (c :: cs, rest)
  | fuel + 1, c :: rest =>
      if c.toNat < 32 ∨ c = '\\' then none
      else do
        let (cs, rest) ← readString fuel rest
        some (c :: cs, rest)

/-- The value of a numeral whose parts have been separated.  Whole numbers within
64 bits are integers; minus zero and every other number is a double, which has to
be finite. -/
def numberOf? (negative : Bool) (whole fraction : List Char) (exponent : Option Int) :
    Option Json :=
  let value : Int := if negative then -(digitsValue whole : Int) else digitsValue whole
  let isWhole := fraction.isEmpty && exponent.isNone && !(negative && value == 0)
  if isWhole ∧ Int64.minValue.toInt ≤ value ∧ value < UInt64.size then
    some (.int value)
  else
    let numeral : Numeral :=
      ⟨negative, digitsValue (whole ++ fraction), exponent.getD 0 - fraction.length⟩
    match numeral.toDouble with
    | .finite negative magnitude => some (.double (.finite negative magnitude))
    | _ => none

/-- The fraction of a number, if a point stands here, and at least one digit of it. -/
def readFraction : List Char → Option (List Char × List Char)
  | '.' :: rest =>
      let digits := rest.takeWhile Char.isDigit
      if digits.isEmpty then none else some (digits, rest.dropWhile Char.isDigit)
  | text => some ([], text)

/-- The exponent of a number, if its letter stands here, and at least one digit
of it. -/
def readExponent : List Char → Option (Option Int × List Char)
  | [] => some (none, [])
  | mark :: rest =>
      if mark = 'e' ∨ mark = 'E' then
        let (negative, unsigned) := splitSign rest
        let digits := unsigned.takeWhile Char.isDigit
        if digits.isEmpty then none
        else
          let value : Int := digitsValue digits
          some (some (if negative then -value else value), unsigned.dropWhile Char.isDigit)
      else
        some (none, mark :: rest)

/-- A number: a minus or nothing, digits without a needless zero, and the optional
fraction and exponent. -/
def readNumber (text : List Char) : Option (Json × List Char) := do
  let (negative, unsigned) :=
    match text with
    | '-' :: rest => (true, rest)
    | _ => (false, text)
  let whole := unsigned.takeWhile Char.isDigit
  if whole.isEmpty || (whole.head? == some '0' && whole.length != 1) then
    none
  else
    let (fraction, rest) ← readFraction (unsigned.dropWhile Char.isDigit)
    let (exponent, rest) ← readExponent rest
    let value ← numberOf? negative whole fraction exponent
    some (value, rest)

mutual

/-- A value after blanks. -/
def readValue : (fuel : Nat) → List Char → Option (Json × List Char)
  | 0, _ => none
  | fuel + 1, text =>
      match text.dropWhile isBlank with
      | 'n' :: 'u' :: 'l' :: 'l' :: rest => some (.null, rest)
      | 't' :: 'r' :: 'u' :: 'e' :: rest => some (.bool true, rest)
      | 'f' :: 'a' :: 'l' :: 's' :: 'e' :: rest => some (.bool false, rest)
      | '"' :: rest => do
          let (cs, rest) ← readString fuel rest
          some (.string (String.ofList cs), rest)
      | '[' :: rest =>
          match rest.dropWhile isBlank with
          | ']' :: rest => some (.array [], rest)
          | _ => do
              let (items, rest) ← readItems fuel rest
              some (.array items, rest)
      | '\x7b' :: rest =>
          match rest.dropWhile isBlank with
          | '\x7d' :: rest => some (.object [], rest)
          | _ => do
              let (fields, rest) ← readFields fuel rest
              some (.object fields, rest)
      | text => readNumber text

/-- Items separated by commas, up to the closing bracket. -/
def readItems : (fuel : Nat) → List Char → Option (List Json × List Char)
  | 0, _ => none
  | fuel + 1, text => do
      let (item, rest) ← readValue fuel text
      match rest.dropWhile isBlank with
      | ',' :: rest => do
          let (items, rest) ← readItems fuel rest
          some (item :: items, rest)
      | ']' :: rest => some ([item], rest)
      | _ => none

/-- Names with values separated by commas, up to the closing brace. -/
def readFields : (fuel : Nat) → List Char → Option (List (String × Json) × List Char)
  | 0, _ => none
  | fuel + 1, text =>
      match text.dropWhile isBlank with
      | '"' :: rest => do
          let (name, rest) ← readString fuel rest
          match rest.dropWhile isBlank with
          | ':' :: rest => do
              let (value, rest) ← readValue fuel rest
              match rest.dropWhile isBlank with
              | ',' :: rest => do
                  let (fields, rest) ← readFields fuel rest
                  some ((String.ofList name, value) :: fields, rest)
              | '\x7d' :: rest => some ([(String.ofList name, value)], rest)
              | _ => none
          | _ => none
      | _ => none

end

/-- Reads a text that holds one value, not nested too deep, and blanks. -/
def ofText? (text : String) : Option Json :=
  let cs := text.toList
  match readValue (2 * cs.length + 2) cs with
  | some (value, rest) =>
      if rest.all isBlank ∧ value.nesting < nestingLimit then some value else none
  | none => none

end Letterline.Json
