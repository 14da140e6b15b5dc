/-
Module: Letterline.Proofs.Execution
Purpose: What each way of putting executions together may end with.
Trusted boundary: none
Main exports:
  Execution.mayEnd_inFrame, Execution.mayEnd_andThen, Execution.mayEnd_given,
  Execution.Turns, Execution.mayEnd_repeatWhile, Execution.ne_fails_of_given,
  Execution.ne_fails_of_repeatWhile, Program.mayEnd_execute
-/
import Letterline.Program.Execution
import Letterline.Proofs.Dialogue

namespace Letterline.Execution

/-!
Executions are built from a few combinators.  Here each of them is described once by
the endings and stores that it may lead to, so that proofs about instructions follow
the source and never open a dialogue.
-/

variable {α : Type} {store after : Store} {ending : Ending}

/-- A frame is opened before the body and closed after it. -/
theorem mayEnd_inFrame {body : Execution} :
    (inFrame body store).MayEnd (ending, after) ↔
      ∃ inner, (body store.push).MayEnd (ending, inner) ∧ after = inner.pop := by
  simp only [inFrame, Dialogue.bind_eq, Dialogue.mayEnd_bind]
  constructor
  · intro evidence
    rcases evidence with ⟨⟨_, inner⟩, ends, reached⟩
    cases reached
    exact ⟨inner, ends, rfl⟩
  · intro evidence
    rcases evidence with ⟨inner, ends, rfl⟩
    exact ⟨(ending, inner), ends, rfl⟩

/-- The second part runs exactly if the first one proceeds. -/
theorem mayEnd_andThen {first second : Execution} :
    (andThen first second store).MayEnd (ending, after) ↔
      (∃ middle, (first store).MayEnd (.proceeds, middle) ∧
        (second middle).MayEnd (ending, after)) ∨
      (ending ≠ .proceeds ∧ (first store).MayEnd (ending, after)) := by
  simp only [andThen, Dialogue.bind_eq, Dialogue.mayEnd_bind]
  constructor
  · intro evidence
    rcases evidence with ⟨⟨reached, middle⟩, ends, rest⟩
    by_cases goesOn : reached = .proceeds
    · rw [goesOn] at ends rest
      exact Or.inl ⟨middle, ends, rest⟩
    · cases reached with
      | proceeds => exact False.elim (goesOn rfl)
      | exits => cases rest; exact Or.inr ⟨goesOn, ends⟩
      | fails error => cases rest; exact Or.inr ⟨goesOn, ends⟩
      | unfinished => cases rest; exact Or.inr ⟨goesOn, ends⟩
  · rintro (⟨middle, ends, rest⟩ | ⟨stopped, ends⟩)
    · exact ⟨(.proceeds, middle), ends, rest⟩
    · refine ⟨(ending, after), ends, ?_⟩
      cases ending with
      | proceeds => exact False.elim (stopped rfl)
      | exits => rfl
      | fails error => rfl
      | unfinished => rfl

/-- What is evaluated either fails, and then nothing else happens, or is passed on. -/
theorem mayEnd_given {evaluation : Store → Evaluation α} {body : α → Execution} :
    (given evaluation body store).MayEnd (ending, after) ↔
      (∃ result, (evaluation store).run.MayEnd (.ok result) ∧
        (body result store).MayEnd (ending, after)) ∨
      (∃ error, (evaluation store).run.MayEnd (.error error) ∧
        ending = .fails error ∧ after = store) := by
  simp only [given, Dialogue.bind_eq, Dialogue.mayEnd_bind]
  constructor
  · intro evidence
    rcases evidence with ⟨evaluated, ends, rest⟩
    cases evaluated with
    | ok result => exact Or.inl ⟨result, ends, rest⟩
    | error error => cases rest; exact Or.inr ⟨error, ends, rfl, rfl⟩
  · rintro (⟨result, ends, rest⟩ | ⟨error, ends, rfl, rfl⟩)
    · exact ⟨.ok result, ends, rest⟩
    · exact ⟨.error error, ends, rfl⟩

/-- A fault of an evaluation and what follows it is one of either. -/
theorem ne_fails_of_given {error : RuntimeError} {evaluation : Store → Evaluation α}
    {body : α → Execution}
    (evaluated : ¬ (evaluation store).run.MayEnd (.error error))
    (bodyRuns : ∀ {result : α}, (body result store).MayEnd (ending, after) →
      ending ≠ .fails error)
    (ends : (given evaluation body store).MayEnd (ending, after)) : ending ≠ .fails error := by
  obtain ⟨result, _, bodyEnds⟩ | ⟨reported, fails, rfl, _⟩ := mayEnd_given.mp ends
  · exact bodyRuns bodyEnds
  · rintro ⟨⟩
    exact evaluated fails

/-- Printing leaves the store alone and fails, if it does, for a reason of the
console. -/
theorem mayEnd_print {text : String} (ends : (print text store).MayEnd (ending, after)) :
    after = store ∧ (ending = .proceeds ∨ ∃ reason, ending = .fails (.output reason)) := by
  simp only [print, Dialogue.bind_eq, Dialogue.mayEnd_bind] at ends
  rcases ends with ⟨written, _, rest⟩
  cases written with
  | ok _ => cases rest; exact ⟨rfl, Or.inl rfl⟩
  | error reason => cases rest; exact ⟨rfl, Or.inr ⟨reason, rfl⟩⟩

/-! ### Loops -/

/-- A turn that another one follows: the condition held and the body proceeded. -/
theorem mayEnd_turn_again {condition : Store → Evaluation Bool} {body : Execution} :
    (turn condition body store).MayEnd (.again after) ↔
      (condition store).run.MayEnd (.ok true) ∧ (body store).MayEnd (.proceeds, after) := by
  simp only [turn, Dialogue.bind_eq, Dialogue.mayEnd_bind]
  constructor
  · intro evidence
    rcases evidence with ⟨evaluated, ends, rest⟩
    cases evaluated with
    | error error => cases rest
    | ok truth =>
        cases truth with
        | false => cases rest
        | true =>
            obtain ⟨⟨reached, middle⟩, bodyEnds, rest⟩ := Dialogue.mayEnd_bind.mp rest
            cases reached <;> cases rest
            exact ⟨ends, bodyEnds⟩
  · intro evidence
    rcases evidence with ⟨ends, bodyEnds⟩
    exact ⟨.ok true, ends, Dialogue.mayEnd_bind.mpr ⟨(.proceeds, after), bodyEnds, rfl⟩⟩

/-- A turn that is the last one: the condition failed or did not hold, or the body did
not proceed. -/
theorem mayEnd_turn_stop {condition : Store → Evaluation Bool} {body : Execution} :
    (turn condition body store).MayEnd (.stop (ending, after)) ↔
      (∃ error, (condition store).run.MayEnd (.error error) ∧
        ending = .fails error ∧ after = store) ∨
      ((condition store).run.MayEnd (.ok false) ∧ ending = .proceeds ∧ after = store) ∨
      ((condition store).run.MayEnd (.ok true) ∧ ending ≠ .proceeds ∧
        (body store).MayEnd (ending, after)) := by
  simp only [turn, Dialogue.bind_eq, Dialogue.mayEnd_bind]
  constructor
  · intro evidence
    rcases evidence with ⟨evaluated, ends, rest⟩
    cases evaluated with
    | error error => cases rest; exact Or.inl ⟨error, ends, rfl, rfl⟩
    | ok truth =>
        cases truth with
        | false => cases rest; exact Or.inr (Or.inl ⟨ends, rfl, rfl⟩)
        | true =>
            obtain ⟨⟨reached, middle⟩, bodyEnds, rest⟩ := Dialogue.mayEnd_bind.mp rest
            have stopped : reached ≠ .proceeds := by
              rintro rfl
              cases rest
            cases reached <;> cases rest <;> exact Or.inr (Or.inr ⟨ends, stopped, bodyEnds⟩)
  · rintro (⟨error, ends, rfl, rfl⟩ | ⟨ends, rfl, rfl⟩ | ⟨ends, stopped, bodyEnds⟩)
    · exact ⟨.error error, ends, rfl⟩
    · exact ⟨.ok false, ends, rfl⟩
    · refine ⟨.ok true, ends, Dialogue.mayEnd_bind.mpr ⟨(ending, after), bodyEnds, ?_⟩⟩
      cases ending with
      | proceeds => exact False.elim (stopped rfl)
      | exits => rfl
      | fails error => rfl
      | unfinished => rfl

/-- The stores in which a loop evaluates its condition: the one that it begins in, and
the one that each turn leaves. -/
inductive Turns (condition : Store → Evaluation Bool) (body : Execution) (store : Store) :
    Store → Prop where
  | first : Turns condition body store store
  | next {before after : Store} (soFar : Turns condition body store before)
      (truth : (condition before).run.MayEnd (.ok true))
      (bodyEnds : (body before).MayEnd (.proceeds, after)) :
      Turns condition body store after

/-- What every turn keeps holds whenever the condition is evaluated. -/
theorem Turns.invariant {condition : Store → Evaluation Bool} {body : Execution}
    {Invariant : Store → Prop}
    (kept : ∀ {before after : Store}, Invariant before →
      (body before).MayEnd (.proceeds, after) → Invariant after)
    (holds : Invariant store) (turns : Turns condition body store after) :
    Invariant after := by
  induction turns with
  | first => exact holds
  | next _ _ bodyEnds inductionHypothesis => exact kept inductionHypothesis bodyEnds

/-- How a loop ends in a store in which a turn begins. -/
inductive LastTurn (condition : Store → Evaluation Bool) (body : Execution) (store : Store) :
    Ending → Store → Prop where
  | faulty {error : RuntimeError} (ends : (condition store).run.MayEnd (.error error)) :
      LastTurn condition body store (.fails error) store
  | done (ends : (condition store).run.MayEnd (.ok false)) :
      LastTurn condition body store .proceeds store
  | left {ending : Ending} {after : Store} (ends : (condition store).run.MayEnd (.ok true))
      (stopped : ending ≠ .proceeds) (bodyEnds : (body store).MayEnd (ending, after)) :
      LastTurn condition body store ending after
  | spent : LastTurn condition body store .unfinished store

/-- A loop takes some turns and ends where the last of them has led. -/
theorem mayEnd_repeatWhile {limit : Nat} {condition : Store → Evaluation Bool}
    {body : Execution}
    (ends : (repeatWhile limit condition body store).MayEnd (ending, after)) :
    ∃ last, Turns condition body store last ∧ LastTurn condition body last ending after := by
  have further : ∀ before next, Turns condition body store before →
      (turn condition body before).MayEnd (.again next) →
        Turns condition body store next := by
    intro before next soFar again
    obtain ⟨truth, bodyEnds⟩ := mayEnd_turn_again.mp again
    exact .next soFar truth bodyEnds
  obtain ⟨last, turns, stop | spent⟩ := Dialogue.MayEnd.of_iterate further .first ends
  · refine ⟨last, turns, ?_⟩
    obtain ⟨error, failing, rfl, rfl⟩ | ⟨false, rfl, rfl⟩ | ⟨truth, stopped, bodyEnds⟩ :=
      mayEnd_turn_stop.mp stop
    · exact .faulty failing
    · exact .done false
    · exact .left truth stopped bodyEnds
  · cases spent
    exact ⟨after, turns, .spent⟩

/-- A fault of a loop is one of its condition or its body in a store in which a turn
begins. -/
theorem ne_fails_of_repeatWhile {error : RuntimeError} {limit : Nat}
    {condition : Store → Evaluation Bool} {body : Execution} (Invariant : Store → Prop)
    (kept : ∀ {before next : Store}, Invariant before →
      (body before).MayEnd (.proceeds, next) → Invariant next)
    (evaluated : ∀ {before : Store}, Invariant before →
      ¬ (condition before).run.MayEnd (.error error))
    (bodyRuns : ∀ before {after : Store} {ending : Ending}, Invariant before →
      (body before).MayEnd (ending, after) → ending ≠ .fails error)
    (holds : Invariant store)
    (ends : (repeatWhile limit condition body store).MayEnd (ending, after)) :
    ending ≠ .fails error := by
  obtain ⟨last, turns, lastTurn⟩ := mayEnd_repeatWhile ends
  have held : Invariant last := turns.invariant kept holds
  cases lastTurn with
  | faulty fails =>
      rintro ⟨⟩
      exact evaluated held fails
  | done => nofun
  | left _ _ bodyEnds => exact bodyRuns last held bodyEnds
  | spent => nofun

end Letterline.Execution

namespace Letterline

/-- A program leaves the store as its instructions do, and ends as they do unless it is then
flushed in vain. -/
theorem Program.mayEnd_execute {limit : Nat} {program : Program} {store after : Store}
    {ending : Ending} (ends : (program.execute limit store).MayEnd (ending, after)) :
    ∃ reached, (Instruction.executeAll limit program.instructions store).MayEnd (reached, after) ∧
      (ending = reached ∨ ∃ reason, ending = .fails (.output reason)) := by
  unfold Program.execute at ends
  rw [Dialogue.bind_eq, Dialogue.mayEnd_bind] at ends
  obtain ⟨⟨reached, last⟩, bodyEnds, flushed⟩ := ends
  refine ⟨reached, ?_⟩
  cases reached with
  | fails error => cases flushed; exact ⟨bodyEnds, Or.inl rfl⟩
  | unfinished => cases flushed; exact ⟨bodyEnds, Or.inl rfl⟩
  | proceeds =>
      obtain ⟨reason | done, flushed⟩ := flushed
      · cases flushed; exact ⟨bodyEnds, Or.inr ⟨reason, rfl⟩⟩
      · cases flushed; exact ⟨bodyEnds, Or.inl rfl⟩
  | exits =>
      obtain ⟨reason | done, flushed⟩ := flushed
      · cases flushed; exact ⟨bodyEnds, Or.inr ⟨reason, rfl⟩⟩
      · cases flushed; exact ⟨bodyEnds, Or.inl rfl⟩

end Letterline
