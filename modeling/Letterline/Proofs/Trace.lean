/-
Module: Letterline.Proofs.Trace
Purpose: The operations on the store that a run performs, one after the other.
Trusted boundary: none
Main exports:
  Tracing, Tracing.execution, Instruction.trace, Program.trace,
  Instruction.execution_trace, Program.execution_trace, Session.performed,
  Session.store_hold
-/
import Letterline.Proofs.Evaluation
import Letterline.Proofs.Execution
import Letterline.Proofs.History
import Letterline.Session

namespace Letterline

/-!
A run says how it ends and with which store.  Its trace says how it ends and what it did
to the store on the way: the declarations, the changes and the frames that were opened
and closed, each when it happened.  Forgetting the trace but for the store that it leads
to gives back the run, so nothing here runs differently, and what holds of the store
after each part of a trace holds at every moment of the run.
-/

/-- What running on a store is if the operations on it are kept. -/
abbrev Tracing : Type :=
  Store → Dialogue (Ending × List Store.Operation)

namespace Tracing

open Store

/-- The execution that is left if only the last store is kept. -/
def execution (tracing : Tracing) : Execution := fun store => do
  let (ending, operations) ← tracing store
  return (ending, replay operations store)

/-- Ends without an operation. -/
def still (ending : Ending) : Tracing := fun _ =>
  return (ending, [])

/-- Does one operation. -/
def perform (operation : Operation) : Tracing := fun _ =>
  return (.proceeds, [operation])

/-- Prints a line. -/
def print (text : String) : Tracing := fun _ => do
  match ← Execution.writeLine text with
  | .ok () => return (.proceeds, [])
  | .error reason => return (.fails (.output reason), [])

/-- Runs inside a frame, which is closed on every path. -/
def inFrame (body : Tracing) : Tracing := fun store => do
  let (ending, operations) ← body store.push
  return (ending, .push :: (operations ++ [.pop]))

/-- Runs on only if the first part proceeds. -/
def andThen (first second : Tracing) : Tracing := fun store => do
  let (ending, operations) ← first store
  match ending with
  | .proceeds =>
      let (ending, further) ← second (replay operations store)
      return (ending, operations ++ further)
  | _ => return (ending, operations)

/-- Evaluates in a store and goes on with the result.  A fault ends the run. -/
def given {α : Type} (evaluation : Store → Evaluation α) (body : α → Tracing) :
    Tracing := fun store => do
  match ← (evaluation store).run with
  | .ok result => body result store
  | .error error => return (.fails error, [])

/-- One turn of a loop that has done some operations since it was entered. -/
def turn (condition : Store → Evaluation Bool) (body : Tracing) (store : Store)
    (soFar : List Operation) :
    Dialogue (Dialogue.Turn (List Operation) (Ending × List Operation)) := do
  match ← (condition (replay soFar store)).run with
  | .error error => return .stop (.fails error, soFar)
  | .ok false => return .stop (.proceeds, soFar)
  | .ok true =>
      let (ending, operations) ← body (replay soFar store)
      match ending with
      | .proceeds => return .again (soFar ++ operations)
      | _ => return .stop (ending, soFar ++ operations)

/-- Runs a body as long as a condition holds, at most `limit` times. -/
def repeatWhile (limit : Nat) (condition : Store → Evaluation Bool) (body : Tracing) :
    Tracing := fun store =>
  Dialogue.iterate (turn condition body store) (fun soFar => (.unfinished, soFar)) limit []

end Tracing

namespace Instruction

mutual

/-- Runs an instruction and keeps what it does to the store. -/
def trace (limit : Nat) : Instruction → Tracing
  | .exit _ => .still .exits
  | .print value _ => .given value.result fun scalar => .print scalar.text
  | .declare name value _ =>
      .given value.result fun scalar => .perform (.declare name (.ofScalar scalar))
  | .modify name modification _ =>
      .given (modification.newValue name) fun value => .perform (.set name value)
  | .branch condition thenBody none _ =>
      .inFrame (.given condition.evaluate fun
        | true => traceAll limit thenBody
        | false => .still .proceeds)
  | .branch condition thenBody (some elseBody) _ =>
      .inFrame (.given condition.evaluate fun
        | true => traceAll limit thenBody
        | false => traceAll limit elseBody)
  | .whileLoop condition body _ =>
      .repeatWhile limit condition.evaluate (.inFrame (traceAll limit body))
  | .forLoop init condition update body _ =>
      .inFrame (.andThen (traceAll limit init)
        (.repeatWhile limit condition.evaluate
          (.inFrame (.andThen (traceAll limit body) (traceAll limit update)))))

/-- Runs instructions in order until one does not proceed, and keeps what they do to the
store. -/
def traceAll (limit : Nat) : List Instruction → Tracing
  | [] => .still .proceeds
  | instruction :: rest => .andThen (trace limit instruction) (traceAll limit rest)

end

end Instruction

/-- Runs a program and keeps what it does to the store. -/
def Program.trace (limit : Nat) (program : Program) : Tracing := fun store => do
  let (ending, operations) ← Instruction.traceAll limit program.instructions store
  match ending with
  | .fails _ => return (ending, operations)
  | .unfinished => return (ending, operations)
  | _ =>
      .flush fun
        | .ok () => .done (ending, operations)
        | .error reason => .done (.fails (.output reason), operations)

/-! ### A trace is a trace of the run -/

namespace Tracing

variable {α : Type} {body first second : Tracing} {condition : Store → Evaluation Bool}

@[simp] theorem execution_still (ending : Ending) :
    (still ending).execution = fun store => .done (ending, store) :=
  rfl

@[simp] theorem execution_perform (operation : Store.Operation) :
    (perform operation).execution = fun store => .done (.proceeds, operation.apply store) :=
  rfl

@[simp] theorem execution_print (text : String) :
    (print text).execution = Execution.print text := by
  funext store
  simp only [execution, print, Execution.print, Dialogue.bind_eq, Dialogue.bind_assoc]
  congr 1
  funext written
  cases written <;> rfl

@[simp] theorem execution_inFrame :
    (inFrame body).execution = Execution.inFrame body.execution := by
  funext store
  simp only [execution, inFrame, Execution.inFrame, Dialogue.bind_eq, Dialogue.bind_assoc]
  congr 1
  funext reached
  rcases reached with ⟨ending, operations⟩
  simp only [Dialogue.pure_eq_done, Dialogue.done_bind, Store.replay_cons,
    Store.replay_concat]
  rfl

@[simp] theorem execution_andThen :
    (andThen first second).execution =
      Execution.andThen first.execution second.execution := by
  funext store
  simp only [execution, andThen, Execution.andThen, Dialogue.bind_eq, Dialogue.bind_assoc]
  congr 1
  funext reached
  rcases reached with ⟨ending, operations⟩
  cases ending with
  | proceeds =>
      simp only [Dialogue.pure_eq_done, Dialogue.done_bind, Dialogue.bind_assoc,
        Store.replay_append]
  | _ => rfl

@[simp] theorem execution_given {evaluation : Store → Evaluation α} {body : α → Tracing} :
    (given evaluation body).execution =
      Execution.given evaluation fun result => (body result).execution := by
  funext store
  simp only [execution, given, Execution.given, Dialogue.bind_eq, Dialogue.bind_assoc]
  congr 1
  funext evaluated
  cases evaluated <;> rfl

/-- A turn does to the store what a turn of the run does. -/
theorem execution_turn (store : Store) (soFar : List Store.Operation) :
    (turn condition body store soFar).bind (fun taken => .done (taken.map
        (fun soFar => Store.replay soFar store)
        fun (ending, operations) => (ending, Store.replay operations store))) =
      Execution.turn condition body.execution (Store.replay soFar store) := by
  simp only [turn, Execution.turn, execution, Dialogue.bind_eq, Dialogue.bind_assoc]
  congr 1
  funext evaluated
  rcases evaluated with error | truth
  · rfl
  · cases truth with
    | false => rfl
    | true =>
        simp only [Dialogue.bind_assoc]
        congr 1
        funext reached
        rcases reached with ⟨ending, operations⟩
        cases ending <;>
          simp [Dialogue.Turn.map, Store.replay_append]

@[simp] theorem execution_repeatWhile {limit : Nat} :
    (repeatWhile limit condition body).execution =
      Execution.repeatWhile limit condition body.execution := by
  funext store
  exact Dialogue.iterate_map (execution_turn store) (fun _ => rfl) limit []

end Tracing

namespace Instruction

variable {limit : Nat}

mutual

/-- Forgetting the trace of an instruction gives back its run. -/
theorem execution_trace : ∀ instruction : Instruction,
    (trace limit instruction).execution = execute limit instruction
  | .exit _ => by simp [trace, execute]
  | .print .. => by simp [trace, execute]
  | .declare .. => by
      simp only [trace, execute, Tracing.execution_given, Tracing.execution_perform]
      rfl
  | .modify .. => by
      simp only [trace, execute, Tracing.execution_given, Tracing.execution_perform]
      rfl
  | .branch condition thenBody none _ => by
      rw [trace, execute, Tracing.execution_inFrame, Tracing.execution_given]
      congr 2
      funext truth
      cases truth with
      | true => exact execution_traceAll thenBody
      | false => rfl
  | .branch condition thenBody (some elseBody) _ => by
      rw [trace, execute, Tracing.execution_inFrame, Tracing.execution_given]
      congr 2
      funext truth
      cases truth with
      | true => exact execution_traceAll thenBody
      | false => exact execution_traceAll elseBody
  | .whileLoop _ body _ => by
      rw [trace, execute, Tracing.execution_repeatWhile, Tracing.execution_inFrame,
        execution_traceAll body]
  | .forLoop init _ update body _ => by
      rw [trace, execute, Tracing.execution_inFrame, Tracing.execution_andThen,
        Tracing.execution_repeatWhile, Tracing.execution_inFrame, Tracing.execution_andThen,
        execution_traceAll init, execution_traceAll body, execution_traceAll update]

/-- So it is for instructions in a row. -/
theorem execution_traceAll : ∀ body : List Instruction,
    (traceAll limit body).execution = executeAll limit body
  | [] => rfl
  | instruction :: rest => by
      rw [traceAll, executeAll, Tracing.execution_andThen, execution_trace instruction,
        execution_traceAll rest]

end

end Instruction

/-- Forgetting the trace of a program gives back its run. -/
theorem Program.execution_trace (limit : Nat) (program : Program) :
    (program.trace limit).execution = program.execute limit := by
  funext store
  rw [Program.execute, ← Instruction.execution_traceAll]
  simp only [Tracing.execution, Program.trace, Dialogue.bind_eq, Dialogue.bind_assoc]
  congr 1
  funext reached
  rcases reached with ⟨ending, operations⟩
  cases ending with
  | fails error => rfl
  | unfinished => rfl
  | _ =>
      simp only [Dialogue.bind, Dialogue.pure_eq_done, Dialogue.done_bind]
      congr 1
      funext answer
      cases answer <;> rfl

/-! ### Traces in a session -/

namespace Session

variable {σ : Type}

/-- The operations that a run performs on the store of a session. -/
def performed (console : Console σ) (tracing : Tracing) (session : Session σ) :
    List Store.Operation :=
  ((tracing session.store).run console session.world).1.2

/-- What a session performs is a trace of the run. -/
theorem mayEnd_performed (console : Console σ) (tracing : Tracing) (session : Session σ) :
    ∃ ending, (tracing session.store).MayEnd (ending, session.performed console tracing) :=
  ⟨_, Dialogue.mayEnd_run console (tracing session.store) session.world⟩

/-- The run leaves the store that the operations lead to. -/
theorem store_hold (console : Console σ) (tracing : Tracing) (session : Session σ) :
    (session.hold console tracing.execution).2.store =
      Store.replay (session.performed console tracing) session.store := by
  rw [hold, Tracing.execution, Dialogue.bind_eq, Dialogue.run_bind]
  rfl

end Session

end Letterline
