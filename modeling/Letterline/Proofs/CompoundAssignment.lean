/-
Module: Letterline.Proofs.CompoundAssignment
Purpose: A compound assignment is the assignment of a chain that begins with the variable.
Trusted boundary: none
Main exports:
  Store.Reachable, Value.behindVariable, Modification.newValue_compound,
  Store.Reachable.compound_alike_assign
-/
import Letterline.Proofs.SessionInvariant

namespace Letterline

/-!
A compound assignment puts the parts of its value behind the literal that the variable
holds, and evaluates the chain.  The assignment looks the variable up as the first operand
of a fresh chain.  The two agree because the variable holds one literal: a value with more
parts, or one that is not evaluated, would be taken part by part by the first and refused by
the second.  No store that a session can come to holds such a value.
-/

/-! ### Stores of sessions -/

/-- A store that a session has at some moment.  The session began with an empty store, some
jobs were run in it, and from what the next one does to the store a part is done. -/
def Store.Reachable (store : Store) : Prop :=
  ∃ (σ : Type) (console : Console σ) (world : σ) (limit : Nat) (earlier : List Job) (job : Job)
      (done due : List Operation),
    let session := (Session.start world).runJobs console limit earlier
    session.performed console (job.trace limit) = done ++ due ∧
      store = replay done session.store

/-- Whatever was run, the store is in order. -/
theorem Store.Reachable.sound {store : Store} (reachable : store.Reachable) : store.Sound := by
  obtain ⟨_, console, world, limit, earlier, job, _, _, moment, rfl⟩ := reachable
  obtain ⟨sound, _⟩ := Session.sound_of_runJobs console limit world earlier
  exact Session.sound_of_performed sound job moment

/-- So every variable holds the value of a scalar. -/
theorem Store.Reachable.settled {store : Store} (reachable : store.Reachable) : store.Settled :=
  reachable.sound.settled

/-! ### Chains that begin with a variable -/

/-- The chain of a variable and the parts of a value, of which the first is joined by an
operator. -/
def Value.behindVariable (name : String) (operator : Operator) (value : Value) : Value :=
  .ofParts (⟨.none, .variable name⟩ :: value.joinedBy operator)

section

variable {store : Store} {name : String} {entry : Variable} {scalar : Scalar}

/-- A variable that holds the value of a scalar is as good as its literal. -/
theorem Operand.resolve_variable (found : store.lookup? name = some entry)
    (holds : entry.value = .ofScalar scalar) :
    (Operand.variable name).resolve store = (Operand.literal scalar).resolve store := by
  simp only [resolve, found, holds]
  rfl

namespace Value

theorem evaluate_ofParts (parts : List Part) :
    (ofParts parts).evaluate store = ofScalar <$> (ofParts parts).result store :=
  rfl

/-- A chain that begins with a variable has the result of the chain that begins with its
literal. -/
theorem result_variable (found : store.lookup? name = some entry)
    (holds : entry.value = .ofScalar scalar) (operator : Operator) (rest : List Part) :
    (ofParts (⟨operator, .variable name⟩ :: rest)).result store =
      (ofParts (⟨operator, .literal scalar⟩ :: rest)).result store := by
  have folded : fold store none (⟨operator, .variable name⟩ :: rest) =
      fold store none (⟨operator, .literal scalar⟩ :: rest) := by
    rw [fold, fold, Operand.resolve_variable found holds]
  simp only [result, ofParts, folded, Bool.false_eq_true, if_false]

end Value

namespace Modification

/-- Of a variable that holds the value of a scalar a compound modification makes what the
assignment makes of it. -/
theorem newValue_compound (settled : store.Settled) (name : String) (operator : Operator)
    (value : Value) :
    (compound operator value).newValue name store =
      (assign (value.behindVariable name operator)).newValue name store := by
  rw [newValue, newValue]
  cases found : store.lookup? name with
  | none => rfl
  | some entry =>
      obtain ⟨scalar, holds⟩ := settled entry (List.mem_of_find?_eq_some found)
      have extended : entry.value.extend operator value =
          .ofParts (⟨.none, .literal scalar⟩ :: value.joinedBy operator) := by
        rw [holds]
        rfl
      have looked := Value.result_variable found holds .none (value.joinedBy operator)
      calc (compound operator value).apply store entry.value
        _ = (entry.value.extend operator value).evaluate store := rfl
        _ = Value.ofScalar <$> (value.behindVariable name operator).result store := by
            rw [extended, Value.evaluate_ofParts, Value.behindVariable, looked]
        _ = (assign (value.behindVariable name operator)).apply store entry.value := rfl

end Modification

end

/-! ### Instructions -/

namespace Store.Reachable

variable {store : Store}

/-- In every store that a session can come to, a compound assignment runs as the assignment
of the chain that begins with the variable: the dialogues are equal, so on every console the
two make the same requests and come to the same store or the same fault.  Counting up and
down are compound assignments of the literal 1. -/
theorem compound_alike_assign (reachable : store.Reachable) (limit : Nat) (name : String)
    (operator : Operator) (value : Value) (span : Span) :
    (Instruction.modify name (.compound operator value) span).execute limit store =
        (Instruction.modify name (.assign (value.behindVariable name operator)) span).execute
          limit store ∧
      (Instruction.modify name .increment span).execute limit store =
        (Instruction.modify name
          (.compound .plus (.ofParts [⟨.none, .literal (.int 1)⟩])) span).execute limit store ∧
      (Instruction.modify name .decrement span).execute limit store =
        (Instruction.modify name
          (.compound .minus (.ofParts [⟨.none, .literal (.int 1)⟩])) span).execute limit store := by
  refine ⟨?_, rfl, rfl⟩
  simp only [Instruction.execute, Execution.given,
    Modification.newValue_compound reachable.settled]

end Store.Reachable

/-! ### Inside a branch -/

/-- A program that declares a second variable inside a branch. -/
private def declaringInside : Program :=
  ⟨[.declare "x" (.ofParts [⟨.none, .literal (.string "a")⟩]) ⟨0, 8⟩,
    .branch (.compare (.ofParts [⟨.none, .variable "x"⟩]) .equal
        (.ofParts [⟨.none, .literal (.string "a")⟩]))
      [.declare "y" (.ofParts [⟨.none, .literal (.string "b")⟩]) ⟨18, 26⟩] none ⟨8, 27⟩], ⟨0, 27⟩⟩

/-- The store inside that branch. -/
def insideBranch : Store :=
  ⟨[⟨"x", .ofScalar (.string "a")⟩, ⟨"y", .ofScalar (.string "b")⟩], [["y"], ["x"]]⟩

theorem insideBranch_reachable : insideBranch.Reachable :=
  ⟨Script, Script.console, .ofAnswers [], 0, [], .unchecked declaringInside,
    [.declare "x" (.ofScalar (.string "a")), .push, .declare "y" (.ofScalar (.string "b"))],
    [.pop], rfl, rfl⟩

/-- The variable `y`, then `x` itself, then a line of input. -/
def yAndXAndInput : Value :=
  .ofParts [⟨.none, .variable "y"⟩, ⟨.plus, .variable "x"⟩, ⟨.plus, .input⟩]

/-- Inside the branch `x` takes in `y`, itself as it was, and what is answered. -/
theorem compound_of_self_and_input :
    insideBranch.Reachable ∧
      (Instruction.modify "x" (.compound .plus yAndXAndInput) ⟨0, 0⟩).execute 0 insideBranch =
        (Instruction.modify "x" (.assign (yAndXAndInput.behindVariable "x" .plus)) ⟨0, 0⟩).execute
          0 insideBranch ∧
      (Session.mk insideBranch (.ofAnswers ["c"])).hold Script.console
          ((Instruction.modify "x" (.compound .plus yAndXAndInput) ⟨0, 0⟩).execute 0) =
        (.proceeds, ⟨insideBranch.set "x" (.ofScalar (.string "abac")),
          { Script.ofAnswers [] with requests := 1 }⟩) :=
  ⟨insideBranch_reachable,
    (insideBranch_reachable.compound_alike_assign 0 "x" .plus yAndXAndInput ⟨0, 0⟩).1, rfl⟩

end Letterline
