/-
Module: Letterline.Toml.Printer
Purpose: Writing texts as TOML strings.
Trusted boundary: none
Main exports:
  Toml.Quoting, Toml.quotingOf, Toml.quote
-/

namespace Letterline.Toml

/-!
A text is written in the first form that needs no escapes: in double quotes, in
single quotes, and then over several lines in the one or the other.  If none can, it
is written in double quotes with escapes.
-/

/-- The forms of a string. -/
inductive Quoting where
  | basic
  | literal
  | basicLines
  | literalLines
deriving Repr, DecidableEq

/-- The length of the longest run of a character. -/
def longestRun (c : Char) : (run longest : Nat) → List Char → Nat
  | run, longest, [] => max run longest
  | run, longest, d :: rest =>
      if d = c then longestRun c (run + 1) longest rest
      else longestRun c 0 (max run longest) rest

/-- Says whether a character can only be written as an escape. -/
def needsEscape (c : Char) : Bool :=
  (c.toNat < 32 && c != '\t' && c != '\n') || c.toNat == 127

/-- The form that a text is written in. -/
def quotingOf (text : List Char) : Quoting :=
  let escapes := text.any needsEscape
  let backslash := text.contains '\\'
  let newline := text.contains '\n'
  let double := longestRun '"' 0 0 text
  let single := longestRun '\'' 0 0 text
  if !escapes && !backslash && double == 0 && !newline then .basic
  else if !escapes && single == 0 && !newline then .literal
  else if !escapes && !backslash && double ≤ 2 then .basicLines
  else if !escapes && single ≤ 2 then .literalLines
  else if newline then .basicLines
  else .basic

/-- A hexadecimal digit in upper case. -/
def upperHexDigit (value : Nat) : Char :=
  if value < 10 then Char.ofNat (48 + value) else Char.ofNat (55 + value)

/-- A character that is not a quote, inside double quotes. -/
def escaped (lines : Bool) (c : Char) : List Char :=
  if c = '\x08' then ['\\', 'b']
  else if c = '\t' then ['\\', 't']
  else if c = '\n' then (if lines then ['\n'] else ['\\', 'n'])
  else if c = '\x0c' then ['\\', 'f']
  else if c = '\r' then ['\\', 'r']
  else if c = '\\' then ['\\', '\\']
  else if needsEscape c then
    ['\\', 'u', '0', '0', upperHexDigit (c.toNat / 16), upperHexDigit (c.toNat % 16)]
  else [c]

/-- The contents of a string in double quotes.  Of quotes in a row, over several
lines, every third one is escaped; `run` counts those before. -/
def escapeAll (lines : Bool) : (run : Nat) → List Char → List Char
  | _, [] => []
  | run, c :: rest =>
      if c = '"' then
        if lines && run < 2 then '"' :: escapeAll lines (run + 1) rest
        else '\\' :: '"' :: escapeAll lines 0 rest
      else
        escaped lines c ++ escapeAll lines 0 rest

/-- A line end after the opening quotes, where the text has one of its own. -/
def openingLineEnd (text : List Char) : List Char :=
  if text.contains '\n' then ['\n'] else []

/-- A text as a string. -/
def quote (text : List Char) : List Char :=
  let doubleQuotes := ['"', '"', '"']
  let singleQuotes := ['\'', '\'', '\'']
  match quotingOf text with
  | .basic => '"' :: escapeAll false 0 text ++ ['"']
  | .literal => '\'' :: text ++ ['\'']
  | .basicLines =>
      doubleQuotes ++ openingLineEnd text ++ escapeAll true 0 text ++ doubleQuotes
  | .literalLines => singleQuotes ++ openingLineEnd text ++ text ++ singleQuotes

end Letterline.Toml
