/-
Module: Letterline.Proofs.DeadCode
Purpose: What follows an exit in its body can be left out, and is what the rule on
  unreachable code reports.
Trusted boundary: none
Main exports:
  Instruction.truncated, Program.truncated, Instruction.execute_truncated,
  Check.unreachableIn_eq_nil_iff, Program.unreachable_code_is_dead
-/
import Letterline.Check
import Letterline.Proofs.Limit

namespace Letterline

/-!
Truncation ends every body with its first exit.  Running and checking go through a program
in different ways, and each meets truncation on its own: a run ignores what comes behind an
exit, and the rule is silent exactly if nothing does.
-/

namespace Instruction

mutual

/-- An instruction whose bodies end with their first exit.  The head of a loop is no body
and stays as it is. -/
def truncated : Instruction → Instruction
  | .branch condition thenBody none span =>
      .branch condition (truncatedAll thenBody) none span
  | .branch condition thenBody (some elseBody) span =>
      .branch condition (truncatedAll thenBody) (some (truncatedAll elseBody)) span
  | .whileLoop condition body span => .whileLoop condition (truncatedAll body) span
  | .forLoop init condition update body span =>
      .forLoop init condition update (truncatedAll body) span
  | instruction => instruction

/-- A body up to its first exit, with the bodies inside it truncated. -/
def truncatedAll : List Instruction → List Instruction
  | [] => []
  | instruction :: rest =>
      if instruction.isExit then [instruction] else truncated instruction :: truncatedAll rest

end

theorem isExit_iff {instruction : Instruction} :
    instruction.isExit ↔ ∃ span, instruction = .exit span := by
  cases instruction <;> simp [isExit, kind]

end Instruction

/-- A program whose bodies end with their first exit, and that ends with its own. -/
def Program.truncated (program : Program) : Program :=
  ⟨Instruction.truncatedAll program.instructions, program.span⟩

/-! ### Running -/

namespace Instruction

open Execution

variable {limit : Nat}

/-- Nothing runs behind an exit. -/
theorem executeAll_cons_of_isExit {instruction : Instruction} (exits : instruction.isExit)
    (rest : List Instruction) :
    executeAll limit (instruction :: rest) = executeAll limit [instruction] := by
  obtain ⟨span, rfl⟩ := isExit_iff.mp exits
  rw [executeAll, executeAll, execute]
  rfl

mutual

/-- A truncated instruction runs as the whole one does. -/
theorem execute_truncated : ∀ instruction : Instruction,
    execute limit instruction.truncated = execute limit instruction
  | .exit _ => by simp only [truncated]
  | .print .. => by simp only [truncated]
  | .declare .. => by simp only [truncated]
  | .modify .. => by simp only [truncated]
  | .branch _ thenBody none _ => by
      rw [truncated, execute, execute, executeAll_truncatedAll thenBody]
  | .branch _ thenBody (some elseBody) _ => by
      rw [truncated, execute, execute, executeAll_truncatedAll thenBody,
        executeAll_truncatedAll elseBody]
  | .whileLoop _ body _ => by
      rw [truncated, execute, execute, executeAll_truncatedAll body]
  | .forLoop _ _ _ body _ => by
      rw [truncated, execute, execute, executeAll_truncatedAll body]

/-- So does a truncated body. -/
theorem executeAll_truncatedAll : ∀ body : List Instruction,
    executeAll limit (truncatedAll body) = executeAll limit body
  | [] => by rw [truncatedAll]
  | instruction :: rest => by
      rw [truncatedAll]
      split
      · next exits => rw [executeAll_cons_of_isExit exits rest]
      · rw [executeAll, executeAll, execute_truncated instruction,
          executeAll_truncatedAll rest]

end

end Instruction

theorem Program.execute_truncated (limit : Nat) (program : Program) :
    program.truncated.execute limit = program.execute limit := by
  funext store
  rw [execute, execute, truncated, Instruction.executeAll_truncatedAll]

/-! ### Checking -/

namespace Check

open Instruction

/-- Behind an exit the rule reports the next instruction and looks no further. -/
theorem unreachableIn_cons (instruction : Instruction) (rest : List Instruction) :
    unreachableIn (instruction :: rest) =
      if instruction.isExit then
        (rest.head?.map fun next => ⟨next.span, .unreachable next.kind⟩).toList
      else unreachableInside instruction ++ unreachableIn rest := by
  cases instruction with
  | exit span => cases rest <;> simp [unreachableIn, unreachableInside, isExit, kind]
  | _ => simp [unreachableIn, isExit, kind]

mutual

/-- The rule is silent inside an instruction exactly if truncation takes nothing from it. -/
theorem unreachableInside_eq_nil_iff : ∀ instruction : Instruction,
    unreachableInside instruction = [] ↔ instruction.truncated = instruction
  | .exit _ => by simp [unreachableInside, truncated]
  | .print .. => by simp [unreachableInside, truncated]
  | .declare .. => by simp [unreachableInside, truncated]
  | .modify .. => by simp [unreachableInside, truncated]
  | .branch _ thenBody none _ => by
      simp [unreachableInside, truncated, unreachableIn_eq_nil_iff thenBody]
  | .branch _ thenBody (some elseBody) _ => by
      simp [unreachableInside, truncated, unreachableIn_eq_nil_iff thenBody,
        unreachableIn_eq_nil_iff elseBody]
  | .whileLoop _ body _ => by
      simp [unreachableInside, truncated, unreachableIn_eq_nil_iff body]
  | .forLoop _ _ _ body _ => by
      simp [unreachableInside, truncated, unreachableIn_eq_nil_iff body]

/-- So it is for a body. -/
theorem unreachableIn_eq_nil_iff : ∀ body : List Instruction,
    unreachableIn body = [] ↔ truncatedAll body = body
  | [] => by simp [unreachableIn, truncatedAll]
  | instruction :: rest => by
      rw [unreachableIn_cons, truncatedAll]
      split
      · cases rest <;> simp
      · rw [List.append_eq_nil_iff, unreachableInside_eq_nil_iff instruction,
          unreachableIn_eq_nil_iff rest, List.cons.injEq]

end

end Check

/-- Ending every body of a program with its first exit changes nothing: on every console and
in every session both programs go on for ever, or both end in the same way, with the same
store, after the same requests for input and with the same texts written.  The rule on
unreachable code is silent on a program exactly if nothing can be left out of it so. -/
theorem Program.unreachable_code_is_dead (program : Program) :
    (∀ {σ : Type} (console : Console σ) (session : Session σ),
      session.Alike console program.execute program.truncated.execute) ∧
    (Check.unreachableCode program = [] ↔ program.truncated = program) := by
  constructor
  · intro σ console session
    exact Session.alike_of_eq (fun le => program.agrees_execute le)
      fun limit => (program.execute_truncated limit).symm
  · rw [Check.unreachableCode, Check.unreachableIn_eq_nil_iff, truncated]
    rcases program with ⟨instructions, span⟩
    simp

end Letterline
