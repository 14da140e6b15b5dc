/-
Module: Letterline.Proofs.Relocation
Purpose: Programs whose text stands elsewhere.
Trusted boundary: none
Main exports:
  Instruction.moved, Shifts, InstructionPhrase.moved_instruction,
  InstructionPhrase.instructions_append, Instruction.execute_moved
-/
import Letterline.Program.Execution
import Letterline.Proofs.Grammar

namespace Letterline

/-!
An instruction keeps the place of its text in its spans, and those of the instructions inside
it in theirs.  Moving it changes the spans alone.  The phrase that it was read from denotes,
at another place, the same instruction moved there, and runs do not look at spans.
-/

/-- A span whose ends are moved. -/
def Span.moved (move : Nat → Nat) (span : Span) : Span :=
  ⟨move span.start, move span.stop⟩

namespace Instruction

mutual

/-- An instruction of which every span is moved, at any depth. -/
def moved (move : Nat → Nat) : Instruction → Instruction
  | .exit span => .exit (span.moved move)
  | .print value span => .print value (span.moved move)
  | .declare name value span => .declare name value (span.moved move)
  | .modify name modification span => .modify name modification (span.moved move)
  | .branch condition thenBody none span =>
      .branch condition (movedAll move thenBody) none (span.moved move)
  | .branch condition thenBody (some elseBody) span =>
      .branch condition (movedAll move thenBody) (some (movedAll move elseBody))
        (span.moved move)
  | .whileLoop condition body span =>
      .whileLoop condition (movedAll move body) (span.moved move)
  | .forLoop init condition update body span =>
      .forLoop (movedAll move init) condition (movedAll move update) (movedAll move body)
        (span.moved move)

def movedAll (move : Nat → Nat) : List Instruction → List Instruction
  | [] => []
  | instruction :: rest => moved move instruction :: movedAll move rest

end

theorem movedAll_eq_map (move : Nat → Nat) (instructions : List Instruction) :
    movedAll move instructions = instructions.map (moved move) := by
  induction instructions with
  | nil => rfl
  | cons instruction rest inductionHypothesis =>
      rw [movedAll, inductionHypothesis, List.map_cons]

end Instruction

/-! ### Phrases at other places -/

/-- From one place on, indices are moved to those from another place on. -/
def Shifts (move : Nat → Nat) (start target : Nat) : Prop :=
  ∀ distance, move (start + distance) = target + distance

namespace Shifts

variable {move : Nat → Nat} {start target : Nat}

/-- Adding a number is a shift to the right. -/
theorem right (count start : Nat) : Shifts (· + count) start (start + count) :=
  fun distance => Nat.add_right_comm start distance count

/-- Subtracting a number is a shift to the left. -/
theorem left (start : Nat) : Shifts (· - start) start 0 := fun distance => by
  simp

theorem add (shifts : Shifts move start target) (count : Nat) :
    Shifts move (start + count) (target + count) := fun distance => by
  rw [Nat.add_assoc, shifts, Nat.add_assoc]

theorem moved_over (shifts : Shifts move start target) (text : List Char) :
    (Span.over start text).moved move = .over target text := by
  have first := shifts 0
  rw [Nat.add_zero, Nat.add_zero] at first
  rw [Span.over, Span.moved, shifts, first, Span.over]

end Shifts

namespace InstructionPhrase

open Instruction

variable {move : Nat → Nat}

theorem moved_treesFrom {α : Type} {text : α → List Char} {tree : Nat → α → Instruction}
    (trees : ∀ {start target : Nat} (phrase : α), Shifts move start target →
      (tree start phrase).moved move = tree target phrase)
    {start target : Nat} (shifts : Shifts move start target) (phrases : List α) :
    movedAll move (treesFrom text tree start phrases) = treesFrom text tree target phrases := by
  induction phrases generalizing start target with
  | nil => rfl
  | cons phrase rest inductionHypothesis =>
      rw [treesFrom, movedAll, trees phrase shifts, inductionHypothesis (shifts.add _), treesFrom]

theorem moved_declaration {start target : Nat} (declaration : DeclarationPhrase)
    (shifts : Shifts move start target) :
    (declaration.instruction start).moved move = declaration.instruction target := by
  rw [DeclarationPhrase.instruction, moved, shifts.moved_over, DeclarationPhrase.instruction]

theorem moved_change {start target : Nat} (change : ChangePhrase)
    (shifts : Shifts move start target) :
    (change.instruction start).moved move = change.instruction target := by
  rw [ChangePhrase.instruction, moved, shifts.moved_over, ChangePhrase.instruction]

theorem moved_head {start target : Nat} (head : HeadPhrase)
    (shifts : Shifts move start target) :
    (head.instruction start).moved move = head.instruction target := by
  cases head with
  | declare declaration => exact moved_declaration declaration shifts
  | modify change => exact moved_change change shifts

mutual

/-- A phrase denotes at another place what it denotes here, moved there. -/
theorem moved_instruction {start target : Nat} (shifts : Shifts move start target) :
    ∀ phrase : InstructionPhrase,
      (phrase.instruction start).moved move = phrase.instruction target
  | .exit => by rw [instruction, moved, shifts.moved_over, instruction]
  | .print value => by rw [instruction, moved, shifts.moved_over, instruction]
  | .declare declaration => by
      rw [instruction, moved_declaration declaration shifts, instruction]
  | .modify change => by rw [instruction, moved_change change shifts, instruction]
  | .branch condition thenBody none => by
      have inThen := ((shifts.add 1).add condition.text.length).add 1
      rw [instruction, moved, shifts.moved_over, moved_instructions inThen thenBody, instruction]
  | .branch condition thenBody (some elseBody) => by
      have inThen := ((shifts.add 1).add condition.text.length).add 1
      have inElse := (inThen.add (textAll thenBody).length).add 3
      rw [instruction, moved, shifts.moved_over, moved_instructions inThen thenBody,
        moved_instructions inElse elseBody, instruction]
  | .whileLoop condition body => by
      have inBody := ((shifts.add 1).add condition.text.length).add 1
      rw [instruction, moved, shifts.moved_over, moved_instructions inBody body, instruction]
  | .forLoop init condition update body => by
      have inInit := shifts.add 1
      have inUpdate := (((inInit.add (init.flatMap HeadPhrase.text).length).add 1).add
        condition.text.length).add 1
      have inBody := (inUpdate.add (update.flatMap ChangePhrase.text).length).add 1
      rw [instruction, moved, shifts.moved_over, moved_treesFrom moved_head inInit init,
        moved_treesFrom moved_change inUpdate update, moved_instructions inBody body,
        instruction]

/-- So do phrases in a row. -/
theorem moved_instructions {start target : Nat} (shifts : Shifts move start target) :
    ∀ phrases : List InstructionPhrase,
      movedAll move (instructions start phrases) = instructions target phrases
  | [] => by rw [instructions, movedAll, instructions]
  | phrase :: rest => by
      rw [instructions, movedAll, moved_instruction shifts phrase,
        moved_instructions (shifts.add _) rest, instructions]

end

theorem textAll_append (first second : List InstructionPhrase) :
    textAll (first ++ second) = textAll first ++ textAll second := by
  induction first with
  | nil => rfl
  | cons phrase rest inductionHypothesis =>
      rw [List.cons_append, textAll, inductionHypothesis, textAll, List.append_assoc]

/-- Phrases in a row denote what the first of them denote, and then what the others denote
behind the text of these. -/
theorem instructions_append (start : Nat) (first second : List InstructionPhrase) :
    instructions start (first ++ second) =
      instructions start first ++ instructions (start + (textAll first).length) second := by
  induction first generalizing start with
  | nil => rfl
  | cons phrase rest inductionHypothesis =>
      rw [List.cons_append, instructions, inductionHypothesis, instructions, textAll,
        List.length_append, Nat.add_assoc, List.cons_append]

end InstructionPhrase

/-! ### Runs -/

namespace Instruction

variable {limit : Nat} (move : Nat → Nat)

mutual

/-- A moved instruction runs as it did before. -/
theorem execute_moved : ∀ instruction : Instruction,
    execute limit (instruction.moved move) = execute limit instruction
  | .exit _ => by rw [moved, execute, execute]
  | .print .. => by rw [moved, execute, execute]
  | .declare .. => by rw [moved, execute, execute]
  | .modify .. => by rw [moved, execute, execute]
  | .branch _ thenBody none _ => by
      rw [moved, execute, execute, executeAll_movedAll thenBody]
  | .branch _ thenBody (some elseBody) _ => by
      rw [moved, execute, execute, executeAll_movedAll thenBody, executeAll_movedAll elseBody]
  | .whileLoop _ body _ => by
      rw [moved, execute, execute, executeAll_movedAll body]
  | .forLoop init _ update body _ => by
      rw [moved, execute, execute, executeAll_movedAll init, executeAll_movedAll update,
        executeAll_movedAll body]

/-- So do moved instructions in a row. -/
theorem executeAll_movedAll : ∀ instructions : List Instruction,
    executeAll limit (movedAll move instructions) = executeAll limit instructions
  | [] => by rw [movedAll]
  | instruction :: rest => by
      rw [movedAll, executeAll, executeAll, execute_moved instruction, executeAll_movedAll rest]

end

end Instruction

end Letterline
