/-
Module: Letterline.Proofs.ForLoop
Purpose: A loop with a head is a branch around a loop without one.
Trusted boundary: none
Main exports:
  Execution.andThen_assoc, Instruction.executeAll_append, Condition.always,
  Instruction.execute_forLoop, Session.forLoop_alike_whileLoop
-/
import Letterline.Proofs.Limit

namespace Letterline

/-!
A loop with a head runs its head and then its turns inside one frame, and each turn runs the
body and then the update inside another.  A branch that is always taken opens the first
frame, a loop without a head opens the others, and what runs in them is put together by the
laws of running one part after the other.  So the two are the same, limit by limit.
-/

/-! ### Running one part after the other -/

namespace Execution

theorem andThen_assoc (first second third : Execution) :
    andThen (andThen first second) third = andThen first (andThen second third) := by
  funext store
  simp only [andThen, Dialogue.bind_eq, Dialogue.bind_assoc]
  congr 1
  funext reached
  rcases reached with ⟨ending, after⟩
  cases ending <;> rfl

theorem proceed_andThen (execution : Execution) :
    andThen (fun store => .done (.proceeds, store)) execution = execution :=
  rfl

theorem andThen_proceed (execution : Execution) :
    andThen execution (fun store => .done (.proceeds, store)) = execution := by
  funext store
  rw [andThen, Dialogue.bind_eq]
  refine Eq.trans (congrArg _ (funext fun reached => ?_)) (Dialogue.bind_done _)
  rcases reached with ⟨ending, after⟩
  cases ending <;> rfl

end Execution

namespace Instruction

open Execution

variable {limit : Nat}

/-- A body that is put together runs its parts one after the other. -/
theorem executeAll_append (first second : List Instruction) :
    executeAll limit (first ++ second) =
      andThen (executeAll limit first) (executeAll limit second) := by
  induction first with
  | nil => exact (proceed_andThen _).symm
  | cons instruction rest inductionHypothesis =>
      rw [List.cons_append, executeAll, inductionHypothesis, executeAll, andThen_assoc]

theorem executeAll_singleton (instruction : Instruction) :
    executeAll limit [instruction] = execute limit instruction := by
  rw [executeAll, executeAll]
  exact andThen_proceed _

end Instruction

/-! ### A condition that always holds -/

theorem Double.ofRatio_ne_nan (negative : Bool) (num den : Nat) :
    ofRatio negative num den ≠ .nan := by
  rw [ofRatio]
  split <;> nofun

theorem Double.ofBool_ne_nan (truth : Bool) : ofBool truth ≠ .nan := by
  rw [ofBool, ofInt]
  exact ofRatio_ne_nan _ _ _

theorem Double.exists_place {number : Double} (isNumber : number ≠ .nan) :
    ∃ place, number.place? = some place := by
  cases number with
  | nan => exact False.elim (isNumber rfl)
  | infinite negative => exact ⟨_, rfl⟩
  | finite negative magnitude => exact ⟨_, rfl⟩

/-- A number is equal to itself. -/
theorem Comparator.holds_equal_self {number : Double} (isNumber : number ≠ .nan) :
    Comparator.equal.holds number number = true := by
  obtain ⟨place, placed⟩ := Double.exists_place isNumber
  rw [holds, placed]
  exact beq_self_eq_true place

/-- Truth values are compared by the numbers that they count as. -/
theorem Scalar.compare_bool (comparator : Comparator) (left right : Bool) :
    (bool left).compare comparator (bool right) =
      .ok (comparator.holds (.ofBool left) (.ofBool right)) := by
  have alike : (bool left).kind = (bool right).kind := rfl
  have counts (truth : Bool) : (bool truth).number? = some (.ofBool truth) := rfl
  exact compare_of_numbers alike (counts left) (counts right) comparator

/-- The literal that is true. -/
def Value.truth : Value :=
  .ofParts [⟨.none, .literal (.bool true)⟩]

/-- The comparison of two literals that are true. -/
def Condition.always : Condition :=
  .compare .truth .equal .truth

theorem Condition.evaluate_always (store : Store) : evaluate store always = pure true := by
  have result : Value.truth.result store = pure (.bool true) := rfl
  rw [always, evaluate, result, pure_bind, pure_bind, Scalar.compare_bool,
    Comparator.holds_equal_self (Double.ofBool_ne_nan true)]
  rfl

theorem Execution.given_always (body : Bool → Execution) :
    given Condition.always.evaluate body = body true := by
  funext store
  rw [given, Condition.evaluate_always]
  rfl

/-! ### The loop with a head -/

namespace Instruction

variable {limit : Nat}

theorem execute_forLoop (init : List Instruction) (condition : Condition)
    (update body : List Instruction) (span inner outer : Span) :
    execute limit (.forLoop init condition update body span) =
      execute limit (.branch .always (init ++ [.whileLoop condition (body ++ update) inner])
        none outer) := by
  rw [execute, execute, Execution.given_always, executeAll_append, executeAll_singleton, execute,
    executeAll_append]

end Instruction

/-- A loop with a head does what a branch does that is always taken, and in which the head is
followed by a loop without one whose body ends with the update.  Either both go on for ever,
or both end in the same way, with the same store, after the same requests for input and with
the same texts written. -/
theorem Session.forLoop_alike_whileLoop {σ : Type} (console : Console σ) (session : Session σ)
    (init : List Instruction) (condition : Condition) (update body : List Instruction)
    (span inner outer : Span) :
    session.Alike console
      (fun limit => Instruction.execute limit (.forLoop init condition update body span))
      (fun limit => Instruction.execute limit
        (.branch .always (init ++ [.whileLoop condition (body ++ update) inner]) none outer)) :=
  alike_of_eq (fun le => Instruction.agrees_execute le _)
    fun _ => Instruction.execute_forLoop init condition update body span inner outer

end Letterline
