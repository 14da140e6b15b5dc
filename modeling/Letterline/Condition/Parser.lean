/-
Module: Letterline.Condition.Parser
Purpose: Reading conditions.
Trusted boundary: none
Main exports:
  Comparator.parse, Condition.parse
-/
import Letterline.Value.Parser

namespace Letterline

/-!
A condition is a comparison, or several joined by connectives.  A comparator is
spelled with at most three characters, of which the last is `t`.
-/

namespace Comparator

/-- The length at which a spelling ends without a `t`, in bytes of UTF-8. -/
def longestSpelling : Nat := 3

/-- Reads on in a spelling of which `spelled` has been read.  `fuel` bounds the
number of characters, each of which is at least a byte long. -/
def parseSpelling : (fuel : Nat) → (spelled : String) → Parser String
  | 0, spelled => return spelled
  | fuel + 1, spelled => do
      let here ← Parser.cursor
      if here.exhausted || decide (longestSpelling ≤ spelled.utf8ByteSize) then
        return spelled
      else
        Parser.step
        let longer := spelled.push here.current
        if here.current = 't' then return longer else parseSpelling fuel longer

/-- Reads a comparator and stops behind it. -/
def parse : Parser Comparator := do
  let here ← Parser.cursor
  let spelling ← parseSpelling longestSpelling ""
  if spelling = "" then
    Parser.unexpected .comparator
  else
    match ofSpelling? spelling with
    | some comparator => return comparator
    | none => throw (.unknownComparator spelling here.offset)

end Comparator

namespace Condition

/-- Reads two values with a comparator between them. -/
def parseComparison : Parser Condition := do
  let left ← Value.parse
  let comparator ← Comparator.parse
  let right ← Value.parse
  return .compare left comparator right

/-- Reads the connectives and comparisons that follow a comparison.  `fuel` bounds
their number. -/
def parseLinks : (fuel : Nat) → Parser (List (Connective × Condition))
  | 0 => return []
  | fuel + 1 => do
      let here ← Parser.cursor
      if here.exhausted then
        return []
      else
        match Connective.ofMark? here.current with
        | none => return []
        | some connective =>
            Parser.step
            let condition ← parseComparison
            let rest ← parseLinks fuel
            return (connective, condition) :: rest

/-- A condition with its further members: a chain if there are any. -/
def ofMembers (head : Condition) : List (Connective × Condition) → Condition
  | [] => head
  | link :: rest => .chain head (link :: rest)

/-- Reads a condition and stops behind it. -/
def parse : Parser Condition := do
  let head ← parseComparison
  let rest ← parseLinks (← Parser.cursor).remaining
  return ofMembers head rest

end Condition

end Letterline
