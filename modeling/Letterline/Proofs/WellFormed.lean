/-
Module: Letterline.Proofs.WellFormed
Purpose: Programs apart from their spans, and the form of those that can be written.
Trusted boundary: none
Main exports:
  Instruction.withoutSpans, Program.withoutSpans, Value.WellFormed, Condition.WellFormed,
  Instruction.WellFormed, Program.WellFormed, Instruction.wellFormed_withoutSpans
-/
import Letterline.Program
import Letterline.Proofs.Escape

namespace Letterline

/-! ### Programs apart from their spans -/

/-- The span that stands for any span. -/
def Span.blank : Span :=
  ⟨0, 0⟩

namespace Instruction

mutual

/-- An instruction in which all spans are blank. -/
def withoutSpans : Instruction → Instruction
  | .exit _ => .exit .blank
  | .print value _ => .print value .blank
  | .declare name value _ => .declare name value .blank
  | .modify name modification _ => .modify name modification .blank
  | .branch condition thenBody none _ =>
      .branch condition (withoutSpansAll thenBody) none .blank
  | .branch condition thenBody (some elseBody) _ =>
      .branch condition (withoutSpansAll thenBody) (some (withoutSpansAll elseBody)) .blank
  | .whileLoop condition body _ => .whileLoop condition (withoutSpansAll body) .blank
  | .forLoop init condition update body _ =>
      .forLoop (withoutSpansAll init) condition (withoutSpansAll update)
        (withoutSpansAll body) .blank

def withoutSpansAll : List Instruction → List Instruction
  | [] => []
  | instruction :: rest => withoutSpans instruction :: withoutSpansAll rest

end

@[simp] theorem kind_withoutSpans (instruction : Instruction) :
    instruction.withoutSpans.kind = instruction.kind := by
  cases instruction with
  | branch condition thenBody elseBody span =>
      cases elseBody <;> simp only [withoutSpans, kind]
  | _ => simp only [withoutSpans, kind]

theorem withoutSpansAll_eq_map (instructions : List Instruction) :
    withoutSpansAll instructions = instructions.map withoutSpans := by
  induction instructions with
  | nil => rfl
  | cons instruction rest inductionHypothesis =>
      rw [withoutSpansAll, inductionHypothesis, List.map_cons]

/-- Without their spans instructions are of the kinds that they were. -/
theorem map_kind_withoutSpansAll (instructions : List Instruction) :
    (withoutSpansAll instructions).map kind = instructions.map kind := by
  rw [withoutSpansAll_eq_map, List.map_map]
  exact List.map_congr_left fun instruction _ => instruction.kind_withoutSpans

end Instruction

/-- A program in which all spans are blank. -/
def Program.withoutSpans (program : Program) : Program :=
  ⟨Instruction.withoutSpansAll program.instructions, .blank⟩

/-! ### The form of what can be written -/

/-- A lower-case letter and more lower-case letters and digits. -/
def IsName (name : String) : Prop :=
  ∃ first rest, name.toList = first :: rest ∧ first.isLower ∧
    ∀ c ∈ rest, c.isLower ∨ c.isDigit

/-- Doubles have to be denoted by a text, and strings do not contain the letters of an
escape. -/
def Scalar.WellFormed : Scalar → Prop
  | .double value => ∃ text, readDouble? text = some value
  | .string text =>
      Avoids 'g' 'n' text.toList ∧ Avoids 'g' 'l' text.toList ∧ Avoids 'g' 's' text.toList
  | _ => True

def Operand.WellFormed : Operand → Prop
  | .literal scalar => scalar.WellFormed
  | .variable name => IsName name
  | .input => True

/-- A chain that is to be evaluated, of at least one part.  Every part but the first has
an operator. -/
structure Value.WellFormed (value : Value) : Prop where
  unevaluated : value.evaluated = false
  joined : ∃ first rest, value.parts = first :: rest ∧ first.operator = .none ∧
    ∀ part ∈ rest, part.operator ≠ .none
  operands : ∀ part ∈ value.parts, part.operand.WellFormed

namespace Condition

/-- A comparison of values that can be written. -/
def WellFormedComparison : Condition → Prop
  | .compare left _ right => left.WellFormed ∧ right.WellFormed
  | .chain _ _ => False

/-- A comparison alone, or a chain of at least two comparisons. -/
def WellFormed : Condition → Prop
  | .compare left _ right => left.WellFormed ∧ right.WellFormed
  | .chain head rest =>
      head.WellFormedComparison ∧ rest ≠ [] ∧ ∀ link ∈ rest, link.2.WellFormedComparison

end Condition

def Modification.WellFormed : Modification → Prop
  | .increment => True
  | .decrement => True
  | .compound operator value => operator ≠ .none ∧ value.WellFormed
  | .assign value => value.WellFormed

namespace Instruction

mutual

/-- An instruction that can be written.  In front of the condition of a `for` stand
declarations and changes only, and behind it changes only. -/
def WellFormed : Instruction → Prop
  | .exit _ => True
  | .print value _ => value.WellFormed
  | .declare name value _ => IsName name ∧ value.WellFormed
  | .modify name modification _ => IsName name ∧ modification.WellFormed
  | .branch condition thenBody none _ => condition.WellFormed ∧ AllWellFormed thenBody
  | .branch condition thenBody (some elseBody) _ =>
      condition.WellFormed ∧ AllWellFormed thenBody ∧ AllWellFormed elseBody
  | .whileLoop condition body _ => condition.WellFormed ∧ AllWellFormed body
  | .forLoop init condition update body _ =>
      (AllWellFormed init ∧
          ∀ instruction ∈ init, instruction.kind = .declare ∨ instruction.kind = .modify) ∧
        condition.WellFormed ∧
        (AllWellFormed update ∧ ∀ instruction ∈ update, instruction.kind = .modify) ∧
        AllWellFormed body

def AllWellFormed : List Instruction → Prop
  | [] => True
  | instruction :: rest => WellFormed instruction ∧ AllWellFormed rest

end

/-- What holds of the kinds of instructions does not depend on their spans. -/
theorem forall_kind_withoutSpansAll (Holds : InstructionKind → Prop)
    (instructions : List Instruction) :
    (∀ instruction ∈ withoutSpansAll instructions, Holds instruction.kind) ↔
      ∀ instruction ∈ instructions, Holds instruction.kind := by
  rw [← List.forall_mem_map (f := kind), map_kind_withoutSpansAll, List.forall_mem_map]

mutual

/-- Whether an instruction can be written does not depend on its spans. -/
theorem wellFormed_withoutSpans : ∀ instruction : Instruction,
    instruction.withoutSpans.WellFormed ↔ instruction.WellFormed
  | .exit _ => by rw [withoutSpans, WellFormed, WellFormed]
  | .print value _ => by rw [withoutSpans, WellFormed, WellFormed]
  | .declare name value _ => by rw [withoutSpans, WellFormed, WellFormed]
  | .modify name modification _ => by rw [withoutSpans, WellFormed, WellFormed]
  | .branch condition thenBody none _ => by
      rw [withoutSpans, WellFormed, WellFormed, allWellFormed_withoutSpansAll]
  | .branch condition thenBody (some elseBody) _ => by
      rw [withoutSpans, WellFormed, WellFormed, allWellFormed_withoutSpansAll,
        allWellFormed_withoutSpansAll]
  | .whileLoop condition body _ => by
      rw [withoutSpans, WellFormed, WellFormed, allWellFormed_withoutSpansAll]
  | .forLoop init condition update body _ => by
      have heads := forall_kind_withoutSpansAll (fun kind => kind = .declare ∨ kind = .modify) init
      have changes := forall_kind_withoutSpansAll (fun kind => kind = .modify) update
      rw [withoutSpans, WellFormed, WellFormed, allWellFormed_withoutSpansAll,
        allWellFormed_withoutSpansAll, allWellFormed_withoutSpansAll, heads, changes]

theorem allWellFormed_withoutSpansAll : ∀ instructions : List Instruction,
    AllWellFormed (withoutSpansAll instructions) ↔ AllWellFormed instructions
  | [] => by rw [withoutSpansAll]
  | instruction :: rest => by
      rw [withoutSpansAll, AllWellFormed, AllWellFormed, wellFormed_withoutSpans,
        allWellFormed_withoutSpansAll]

end

end Instruction

/-- A program with an instruction, in which every instruction can be written. -/
structure Program.WellFormed (program : Program) : Prop where
  filled : program.instructions ≠ []
  instructions : Instruction.AllWellFormed program.instructions

theorem Program.wellFormed_withoutSpans (program : Program) :
    program.withoutSpans.WellFormed ↔ program.WellFormed := by
  have filled : Instruction.withoutSpansAll program.instructions ≠ [] ↔
      program.instructions ≠ [] := by
    rw [Instruction.withoutSpansAll_eq_map, ne_eq, List.map_eq_nil_iff]
  have fits := Instruction.allWellFormed_withoutSpansAll program.instructions
  exact ⟨fun ⟨left, right⟩ => ⟨filled.mp left, fits.mp right⟩,
    fun ⟨left, right⟩ => ⟨filled.mpr left, fits.mpr right⟩⟩

end Letterline
