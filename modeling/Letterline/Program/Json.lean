/-
Module: Letterline.Program.Json
Purpose: Programs as JSON.
Trusted boundary: none
Main exports:
  Program.toJson, Program.ofJson?, Program.jsonText, Program.ofJsonText?
-/
import Letterline.Json.Codec
import Letterline.Program

namespace Letterline

/-!
Every node is a record.  A node with several forms has the form's name in the field
`t`; a scalar or operand has its contents in the field `v` beside it.  Reading fails
on any field that is absent or does not fit, except that spans, the mark of an
evaluated value and the alternative of a branch may be absent.
-/

/-! ### Leaves -/

namespace Span

/-- A span as JSON. -/
def toJson (span : Span) : Json :=
  .object [("start", .int span.start), ("end", .int span.stop)]

/-- Reads an index. -/
def indexOf? : Json → Option Nat
  | .int value => if 0 ≤ value then some value.toNat else none
  | _ => none

/-- Reads a span. -/
def ofJson? (json : Json) : Option Span :=
  match json.record? ["start", "end"] 2 with
  | some [some start, some stop] => do
      let start ← indexOf? start
      let stop ← indexOf? stop
      some ⟨start, stop⟩
  | _ => none

/-- Reads a span that may be absent and is then empty. -/
def ofField? : Option Json → Option Span
  | none => some ⟨0, 0⟩
  | some json => ofJson? json

end Span

namespace Scalar

/-- A scalar as JSON. -/
def toJson : Scalar → Json
  | .int value => .object [("t", .string "Int"), ("v", .int value.toInt)]
  | .double value => .object [("t", .string "Double"), ("v", .double value)]
  | .bool value => .object [("t", .string "Bool"), ("v", .bool value)]
  | .char value => .object [("t", .string "Char"), ("v", .string (String.singleton value))]
  | .string value => .object [("t", .string "Str"), ("v", .string value)]

/-- Reads the contents of a scalar of a form. -/
def ofContents? : (form : String) → Json → Option Scalar
  | "Int", .int value =>
      if Int32.minValue.toInt ≤ value ∧ value ≤ Int32.maxValue.toInt then
        some (.int (Int32.ofInt value))
      else
        none
  | "Double", .int value => some (.double (.ofInt value))
  | "Double", .double value => some (.double value)
  | "Bool", .bool value => some (.bool value)
  | "Char", .string text =>
      match text.toList with
      | [value] => some (.char value)
      | _ => none
  | "Str", .string value => some (.string value)
  | _, _ => none

/-- Reads a scalar. -/
def ofJson? (json : Json) : Option Scalar :=
  match json.record? ["t", "v"] 2 with
  | some [some (.string form), some contents] => ofContents? form contents
  | _ => none

end Scalar

namespace Operator

/-- The name of an operator in JSON. -/
def jsonName : Operator → String
  | .none => "None"
  | .plus => "Plus"
  | .minus => "Minus"
  | .times => "Times"
  | .divide => "Divide"
  | .modulo => "Modulo"

/-- Reads an operator. -/
def ofJson? : Json → Option Operator
  | .string "None" => some .none
  | .string "Plus" => some .plus
  | .string "Minus" => some .minus
  | .string "Times" => some .times
  | .string "Divide" => some .divide
  | .string "Modulo" => some .modulo
  | _ => Option.none

end Operator

namespace Comparator

/-- The name of a comparator in JSON. -/
def jsonName : Comparator → String
  | .equal => "Equal"
  | .notEqual => "NotEqual"
  | .greater => "Greater"
  | .greaterOrEqual => "GreaterOrEqual"
  | .less => "Less"
  | .lessOrEqual => "LessOrEqual"

/-- Reads a comparator. -/
def ofJson? : Json → Option Comparator
  | .string "Equal" => some .equal
  | .string "NotEqual" => some .notEqual
  | .string "Greater" => some .greater
  | .string "GreaterOrEqual" => some .greaterOrEqual
  | .string "Less" => some .less
  | .string "LessOrEqual" => some .lessOrEqual
  | _ => none

end Comparator

namespace Connective

/-- The name of a connective in JSON. -/
def jsonName : Connective → String
  | .and => "And"
  | .or => "Or"
  | .xor => "Xor"

/-- Reads a connective. -/
def ofJson? : Json → Option Connective
  | .string "And" => some .and
  | .string "Or" => some .or
  | .string "Xor" => some .xor
  | _ => none

end Connective

/-! ### Values -/

namespace Operand

/-- An operand as JSON. -/
def toJson : Operand → Json
  | .literal scalar => .object [("t", .string "Literal"), ("v", scalar.toJson)]
  | .variable name => .object [("t", .string "Variable"), ("v", .string name)]
  | .input => .object [("t", .string "Input")]

/-- Reads an operand. -/
def ofJson? (json : Json) : Option Operand :=
  match json.record? ["t", "v"] 2 with
  | some [some (.string "Literal"), some contents] => (Scalar.ofJson? contents).map .literal
  | some [some (.string "Variable"), some (.string name)] => some (.variable name)
  | some [some (.string "Input"), none] => some .input
  | some [some (.string "Input"), some .null] => some .input
  | _ => none

end Operand

namespace Part

/-- A part as JSON. -/
def toJson (part : Part) : Json :=
  .object [("op", .string part.operator.jsonName), ("operand", part.operand.toJson)]

/-- Reads a part. -/
def ofJson? (json : Json) : Option Part :=
  match json.record? ["op", "operand"] 2 with
  | some [some operator, some operand] => do
      let operator ← Operator.ofJson? operator
      let operand ← Operand.ofJson? operand
      some ⟨operator, operand⟩
  | _ => none

end Part

namespace Value

/-- A value as JSON. -/
def toJson (value : Value) : Json :=
  .object [("parts", .array (value.parts.map Part.toJson)), ("evaluated", .bool value.evaluated)]

/-- Reads the mark of an evaluated value. -/
def evaluatedOf? : Option Json → Option Bool
  | none => some false
  | some (.bool evaluated) => some evaluated
  | _ => none

/-- Reads a value. -/
def ofJson? (json : Json) : Option Value :=
  match json.record? ["parts", "evaluated"] 1 with
  | some [some (.array parts), evaluated] => do
      let parts ← parts.mapM Part.ofJson?
      let evaluated ← evaluatedOf? evaluated
      some ⟨parts, evaluated⟩
  | _ => none

end Value

/-! ### Conditions -/

namespace Condition

mutual

/-- A condition as JSON. -/
def toJson : Condition → Json
  | .compare left comparator right =>
      .object [("t", .string "Compare"), ("left", left.toJson),
        ("comparator", .string comparator.jsonName), ("right", right.toJson)]
  | .chain head rest =>
      .object [("t", .string "Chain"), ("head", head.toJson), ("rest", .array (linksToJson rest))]

/-- The further members of a chain as JSON. -/
def linksToJson : List (Connective × Condition) → List Json
  | [] => []
  | (connective, condition) :: rest =>
      .object [("op", .string connective.jsonName), ("condition", condition.toJson)]
        :: linksToJson rest

end

mutual

/-- Reads a condition that is nested at most `depth` deep. -/
def ofJson? : (depth : Nat) → Json → Option Condition
  | 0, _ => none
  | depth + 1, json =>
      match json.tagged? "t" with
      | some ("Compare", contents) =>
          match contents.record? ["left", "comparator", "right"] 3 with
          | some [some left, some comparator, some right] => do
              let left ← Value.ofJson? left
              let comparator ← Comparator.ofJson? comparator
              let right ← Value.ofJson? right
              some (.compare left comparator right)
          | _ => none
      | some ("Chain", contents) =>
          match contents.record? ["head", "rest"] 2 with
          | some [some head, some (.array rest)] => do
              let head ← ofJson? depth head
              let rest ← linksOfJson? depth rest
              some (.chain head rest)
          | _ => none
      | _ => none

/-- Reads the further members of a chain. -/
def linksOfJson? (depth : Nat) : List Json → Option (List (Connective × Condition))
  | [] => some []
  | link :: links =>
      match link.record? ["op", "condition"] 2 with
      | some [some connective, some condition] => do
          let connective ← Connective.ofJson? connective
          let condition ← ofJson? depth condition
          let rest ← linksOfJson? depth links
          some ((connective, condition) :: rest)
      | _ => none

end

end Condition

/-! ### Instructions -/

namespace Modification

/-- A modification as JSON. -/
def toJson : Modification → Json
  | .increment => .object [("t", .string "Increment")]
  | .decrement => .object [("t", .string "Decrement")]
  | .compound operator value =>
      .object [("t", .string "Compound"), ("op", .string operator.jsonName),
        ("value", value.toJson)]
  | .assign value => .object [("t", .string "Assign"), ("value", value.toJson)]

/-- Reads a modification. -/
def ofJson? (json : Json) : Option Modification :=
  match json.tagged? "t" with
  | some ("Increment", contents) => (contents.record? [] 0).map fun _ => .increment
  | some ("Decrement", contents) => (contents.record? [] 0).map fun _ => .decrement
  | some ("Compound", contents) =>
      match contents.record? ["op", "value"] 2 with
      | some [some operator, some value] => do
          let operator ← Operator.ofJson? operator
          let value ← Value.ofJson? value
          some (.compound operator value)
      | _ => none
  | some ("Assign", contents) =>
      match contents.record? ["value"] 1 with
      | some [some value] => (Value.ofJson? value).map .assign
      | _ => none
  | _ => none

end Modification

namespace Instruction

mutual

/-- An instruction as JSON. -/
def toJson : Instruction → Json
  | .exit span => .object [("t", .string "Exit"), ("span", span.toJson)]
  | .print value span =>
      .object [("t", .string "Print"), ("value", value.toJson), ("span", span.toJson)]
  | .declare name value span =>
      .object [("t", .string "VarInit"), ("name", .string name), ("value", value.toJson),
        ("span", span.toJson)]
  | .modify name modification span =>
      .object [("t", .string "VarModify"), ("name", .string name),
        ("modification", modification.toJson), ("span", span.toJson)]
  | .branch condition thenBody none span =>
      .object [("t", .string "If"), ("condition", condition.toJson),
        ("then_body", .array (listToJson thenBody)), ("else_body", .null),
        ("span", span.toJson)]
  | .branch condition thenBody (some elseBody) span =>
      .object [("t", .string "If"), ("condition", condition.toJson),
        ("then_body", .array (listToJson thenBody)),
        ("else_body", .array (listToJson elseBody)), ("span", span.toJson)]
  | .whileLoop condition body span =>
      .object [("t", .string "While"), ("condition", condition.toJson),
        ("body", .array (listToJson body)), ("span", span.toJson)]
  | .forLoop init condition update body span =>
      .object [("t", .string "For"), ("init", .array (listToJson init)),
        ("condition", condition.toJson), ("update", .array (listToJson update)),
        ("body", .array (listToJson body)), ("span", span.toJson)]

/-- Instructions as JSON. -/
def listToJson : List Instruction → List Json
  | [] => []
  | instruction :: rest => instruction.toJson :: listToJson rest

end

/-- Reads a list of instructions, given how to read one. -/
def listOfJson? (read : Json → Option Instruction) : Json → Option (List Instruction)
  | .array items => items.mapM read
  | _ => none

/-- Reads the alternative of a branch. -/
def elseOfJson? (read : Json → Option Instruction) :
    Option Json → Option (Option (List Instruction))
  | none => some none
  | some .null => some none
  | some json => (listOfJson? read json).map some

/-- Reads an instruction that is nested at most `depth` deep. -/
def ofJson? : (depth : Nat) → Json → Option Instruction
  | 0, _ => none
  | depth + 1, json =>
      match json.tagged? "t" with
      | some ("Exit", contents) =>
          match contents.record? ["span"] 0 with
          | some [span] => (Span.ofField? span).map .exit
          | _ => none
      | some ("Print", contents) =>
          match contents.record? ["value", "span"] 1 with
          | some [some value, span] => do
              let value ← Value.ofJson? value
              let span ← Span.ofField? span
              some (.print value span)
          | _ => none
      | some ("VarInit", contents) =>
          match contents.record? ["name", "value", "span"] 2 with
          | some [some (.string name), some value, span] => do
              let value ← Value.ofJson? value
              let span ← Span.ofField? span
              some (.declare name value span)
          | _ => none
      | some ("VarModify", contents) =>
          match contents.record? ["name", "modification", "span"] 2 with
          | some [some (.string name), some modification, span] => do
              let modification ← Modification.ofJson? modification
              let span ← Span.ofField? span
              some (.modify name modification span)
          | _ => none
      | some ("If", contents) =>
          match contents.record? ["condition", "then_body", "else_body", "span"] 3 with
          | some [some condition, some thenBody, elseBody, span] => do
              let condition ← Condition.ofJson? depth condition
              let thenBody ← listOfJson? (ofJson? depth) thenBody
              let elseBody ← elseOfJson? (ofJson? depth) elseBody
              let span ← Span.ofField? span
              some (.branch condition thenBody elseBody span)
          | _ => none
      | some ("While", contents) =>
          match contents.record? ["condition", "body", "span"] 2 with
          | some [some condition, some body, span] => do
              let condition ← Condition.ofJson? depth condition
              let body ← listOfJson? (ofJson? depth) body
              let span ← Span.ofField? span
              some (.whileLoop condition body span)
          | _ => none
      | some ("For", contents) =>
          match contents.record? ["init", "condition", "update", "body", "span"] 4 with
          | some [some init, some condition, some update, some body, span] => do
              let init ← listOfJson? (ofJson? depth) init
              let condition ← Condition.ofJson? depth condition
              let update ← listOfJson? (ofJson? depth) update
              let body ← listOfJson? (ofJson? depth) body
              let span ← Span.ofField? span
              some (.forLoop init condition update body span)
          | _ => none
      | _ => none

end Instruction

namespace Program

/-- A program as JSON. -/
def toJson (program : Program) : Json :=
  .object [("instructions", .array (Instruction.listToJson program.instructions)),
    ("span", program.span.toJson)]

/-- Reads a program. -/
def ofJson? (json : Json) : Option Program :=
  match json.record? ["instructions", "span"] 1 with
  | some [some instructions, span] => do
      let instructions ←
        Instruction.listOfJson? (Instruction.ofJson? json.nesting) instructions
      let span ← Span.ofField? span
      some ⟨instructions, span⟩
  | _ => none

/-- The JSON text of a program. -/
def jsonText (style : Json.Style) (program : Program) : String :=
  program.toJson.text style

/-- Reads a program from a JSON text by way of a codec. -/
def ofJsonText? (codec : Json.Codec) (text : String) : Option Program :=
  (codec.read? text).bind ofJson?

end Program

end Letterline
