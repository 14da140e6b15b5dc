/-
Module: Letterline.Value.Parser
Purpose: Reading values.
Trusted boundary: none
Main exports:
  Operand.parse, Value.parse
-/
import Letterline.Parser

namespace Letterline

/-!
A value is an operand and any number of operators with operands.  An operand is a
name in capitals, the letter `u`, or a literal between two equal delimiters.
-/

/-- Reads an operand and stops on its last character. -/
def Operand.parse : Parser Operand := do
  let here ← Parser.cursor
  if here.exhausted then
    Parser.unexpected .value
  else if here.current.isUpper then
    return .variable (← Parser.name true)
  else if here.current = 'u' then
    return .input
  else
    match LiteralKind.ofMark? here.current with
    | none => throw (.unknownValueType here.current here.index)
    | some kind =>
        let contents ← Parser.literalContents
        match kind.read contents here.index with
        | .ok scalar => return .literal scalar
        | .error error => throw error

namespace Value

/-- Reads the operators and operands that follow an operand, on whose last character
the cursor stands, and stops behind them.  `fuel` bounds the number of operators. -/
def parseRest : (fuel : Nat) → Parser (List Part)
  | 0 => return []
  | fuel + 1 => do
      Parser.step
      let here ← Parser.cursor
      if here.exhausted then
        return []
      else
        match Operator.ofMark? here.current with
        | none => return []
        | some operator =>
            Parser.step
            if (← Parser.cursor).exhausted then
              Parser.unexpected .valueAfterOperator
            else
              let operand ← Operand.parse
              let rest ← parseRest fuel
              return ⟨operator, operand⟩ :: rest

/-- Reads a value and stops behind it. -/
def parse : Parser Value := do
  let first ← Operand.parse
  let rest ← parseRest ((← Parser.cursor).after.length + 1)
  return .ofParts (⟨.none, first⟩ :: rest)

end Value

end Letterline
