/-
Module: Letterline.Proofs.Atomicity
Purpose: An instruction without bodies does all that it is for, or nothing.
Trusted boundary: none
Main exports:
  Value.left_by_modify, Modification.run_apply_compound, Store.Reassigned, Store.Redeclared,
  Session.AllOrNothing, Session.all_or_nothing
-/
import Letterline.Proofs.CompoundAssignment
import Letterline.Proofs.Sequence

namespace Letterline

/-!
Printing, declaring and changing a variable evaluate a value first, which can fail at any of
its parts, when answers have been taken already.  A value that is changed in place is then left
with the new parts behind it and no result.  The instructions change a copy, and put it into
the store in one step when nothing can fail any more.
-/

/-! ### Values -/

/-- If a change of a value fails, the value is left extended and not evaluated. -/
theorem Value.left_by_modify {store : Store} {value other left : Value} {operator : Operator}
    {error : RuntimeError}
    (ends : (value.modify store operator other).MayEnd (.error error, left)) :
    left = value.extend operator other ∧ left.evaluated = false := by
  rw [modify, Dialogue.bind_eq, Dialogue.mayEnd_bind] at ends
  obtain ⟨evaluated, -, rest⟩ := ends
  cases evaluated with
  | ok result => cases rest
  | error reason => cases rest; exact ⟨rfl, rfl⟩

/-- A compound modification is a change of a copy, of which nothing is kept if it fails. -/
theorem Modification.run_apply_compound (store : Store) (current other : Value)
    (operator : Operator) :
    ((compound operator other).apply store current).run =
      (current.modify store operator other).bind fun reached =>
        .done (reached.1.map fun _ => reached.2) := by
  rw [apply, Value.modify, Dialogue.bind_eq, Dialogue.bind_assoc]
  refine (Dialogue.bind_done _).symm.trans ?_
  congr 1
  funext evaluated
  cases evaluated with
  | ok result => rfl
  | error error => rfl

/-! ### Stores -/

namespace Store

/-- One variable of a table has the value of a scalar now.  The others are what and where they
were. -/
def Revalued (name : String) (scalar : Scalar) (before after : List Variable) : Prop :=
  ∃ front old behind, name ∉ (front ++ behind).map Variable.name ∧
    before = front ++ ⟨name, old⟩ :: behind ∧ after = front ++ ⟨name, .ofScalar scalar⟩ :: behind

/-- The only change is that of a value. -/
structure Reassigned (name : String) (scalar : Scalar) (before after : Store) : Prop where
  table : Revalued name scalar before.table after.table
  frames : after.frames = before.frames

/-- The only changes are that of a value or a new variable behind the others, and that the top
frame owns its name.  Without a frame one is opened for it. -/
structure Redeclared (name : String) (scalar : Scalar) (before after : Store) : Prop where
  table : Revalued name scalar before.table after.table ∨
    (¬before.isDeclared name ∧ after.table = before.table ++ [⟨name, .ofScalar scalar⟩])
  frames : (before.frames = [] ∧ after.frames = [[name]]) ∨
    ∃ top below, before.frames = top :: below ∧
      after.frames = (if name ∈ top then top else top ++ [name]) :: below

variable {name : String} {scalar : Scalar}

theorem replace_of_not_mem {value : Value} {table : List Variable}
    (absent : name ∉ table.map Variable.name) : replace name value table = table := by
  refine (List.map_congr_left fun entry member => ?_).trans (List.map_id table)
  exact if_neg fun same => absent (List.mem_map.mpr ⟨entry, member, same⟩)

/-- A change of a table with different names is one of one variable. -/
theorem revalued_replace {table : List Variable} (distinct : (table.map Variable.name).Nodup)
    (declared : name ∈ table.map Variable.name) :
    Revalued name scalar table (replace name (.ofScalar scalar) table) := by
  obtain ⟨entry, member, rfl⟩ := List.mem_map.mp declared
  obtain ⟨front, behind, rfl⟩ := List.append_of_mem member
  rw [List.map_append, List.map_cons, List.nodup_middle, List.nodup_cons] at distinct
  have others := distinct.1
  rw [List.mem_append, not_or] at others
  refine ⟨front, entry.value, behind, ?_, rfl, ?_⟩
  · rw [List.map_append]
    exact distinct.1
  · calc replace entry.name (.ofScalar scalar) (front ++ entry :: behind)
      _ = replace entry.name (.ofScalar scalar) front ++
            ⟨entry.name, .ofScalar scalar⟩ :: replace entry.name (.ofScalar scalar) behind := by
          simp [replace]
      _ = front ++ ⟨entry.name, .ofScalar scalar⟩ :: behind := by
          rw [replace_of_not_mem others.1, replace_of_not_mem others.2]

variable {store : Store}

theorem Sound.reassigned (sound : store.Sound) (declared : store.isDeclared name) :
    Reassigned name scalar store (store.set name (.ofScalar scalar)) :=
  ⟨revalued_replace sound.distinct (isDeclared_iff.mp declared), rfl⟩

theorem Sound.redeclared (sound : store.Sound) :
    Redeclared name scalar store (store.declare name (.ofScalar scalar)) where
  table := by
    by_cases declared : store.isDeclared name
    · refine Or.inl ?_
      rw [Store.declare, if_pos declared]
      exact revalued_replace sound.distinct (isDeclared_iff.mp declared)
    · exact Or.inr ⟨declared, if_neg declared⟩
  frames := by
    rw [frames_declare]
    cases frames : store.frames with
    | nil => exact Or.inl ⟨rfl, rfl⟩
    | cons top below => exact Or.inr ⟨top, below, rfl, rfl⟩

end Store

/-! ### Instructions -/

theorem Modification.isDeclared_of_newValue {σ : Type} {console : Console σ} {world : σ}
    {modification : Modification} {name : String} {store : Store} {value : Value}
    (evaluated : (modification.newValue name store).outcome console world = .ok value) :
    store.isDeclared name := by
  rw [newValue] at evaluated
  cases found : store.lookup? name with
  | none => rw [found] at evaluated; cases evaluated
  | some entry => rw [Store.isDeclared, found]; rfl

namespace Session

variable {σ : Type} {console : Console σ} {session : Session σ}

/-- A run fails and leaves the store as it was, or it proceeds and has done something to it. -/
def AllOrNothing (console : Console σ) (run : Execution) (session : Session σ)
    (Done : Store → Store → Prop) : Prop :=
  let (ending, after) := session.hold console run
  (∃ error, ending = .fails error ∧ after.store = session.store) ∨
    (ending = .proceeds ∧ Done session.store after.store)

/-- What begins with an evaluation does all or nothing if the rest of it does. -/
theorem allOrNothing_given {α : Type} {evaluation : Store → Evaluation α} {body : α → Execution}
    {Done : Store → Store → Prop}
    (rest : ∀ result world,
      (evaluation session.store).outcome console session.world = .ok result →
        (Session.mk session.store world).AllOrNothing console (body result) Done) :
    session.AllOrNothing console (.given evaluation body) Done := by
  rw [AllOrNothing, hold_given]
  rcases ran : (evaluation session.store).run.run console session.world with ⟨error | result, world⟩
  · exact Or.inl ⟨error, rfl, rfl⟩
  · exact rest result world (congrArg Prod.fst ran)

/-- What does one thing to the store, and cannot fail, does all of it. -/
theorem allOrNothing_of_done {run : Execution} {Done : Store → Store → Prop} {after : Store}
    (ran : run session.store = .done (.proceeds, after)) (done : Done session.store after) :
    session.AllOrNothing console run Done := by
  rw [AllOrNothing, hold, ran]
  exact Or.inr ⟨rfl, done⟩

theorem allOrNothing_print (console : Console σ) (session : Session σ) (text : String) :
    session.AllOrNothing console (.print text) fun before after => after = before := by
  obtain ⟨same, endings⟩ := Execution.mayEnd_print (mayEnd_hold console (.print text) session)
  obtain proceeds | ⟨reason, fails⟩ := endings
  · exact Or.inr ⟨proceeds, same⟩
  · exact Or.inl ⟨.output reason, fails, same⟩

/-- In every store that a session can come to, and on every console, printing, changing and
declaring a variable either fail, wherever in the value and after whatever answers, and leave
the store as it was, or proceed.  Then printing has left the store as it was.  A change has
given one variable the new value, and everything else is as and where it was.  A declaration
has done this or put the variable behind the others, and the top frame owns its name. -/
theorem all_or_nothing (reachable : session.store.Reachable) (console : Console σ) (limit : Nat)
    (name : String) (value : Value) (modification : Modification) (span : Span) :
    session.AllOrNothing console ((Instruction.print value span).execute limit)
      (fun before after => after = before) ∧
    session.AllOrNothing console ((Instruction.modify name modification span).execute limit)
      (fun before after => ∃ scalar,
        (modification.newValue name before).outcome console session.world =
          .ok (.ofScalar scalar) ∧
        Store.Reassigned name scalar before after) ∧
    session.AllOrNothing console ((Instruction.declare name value span).execute limit)
      (fun before after => ∃ scalar,
        (value.result before).outcome console session.world = .ok scalar ∧
        Store.Redeclared name scalar before after) := by
  refine ⟨?_, ?_, ?_⟩
  · exact allOrNothing_given fun scalar world _ => allOrNothing_print console _ scalar.text
  · refine allOrNothing_given fun changed world evaluated => ?_
    have ends := Dialogue.mayEnd_run console (modification.newValue name session.store).run
      session.world
    rw [← Evaluation.outcome, evaluated] at ends
    obtain ⟨scalar, rfl⟩ := Modification.newValue_settled ends
    have declared := Modification.isDeclared_of_newValue evaluated
    exact allOrNothing_of_done rfl ⟨scalar, evaluated, reachable.sound.reassigned declared⟩
  · refine allOrNothing_given fun scalar world evaluated => ?_
    exact allOrNothing_of_done rfl ⟨scalar, evaluated, reachable.sound.redeclared⟩

/-- A line of input, and then a variable that there is not. -/
def inputAndUnknown : Value :=
  .ofParts [⟨.none, .input⟩, ⟨.plus, .variable "z"⟩]

/-- Inside a branch the change of `x` fails when an answer has been taken already.  The store is
the one from before, and the answer is gone. -/
theorem nothing_after_an_answer :
    insideBranch.Reachable ∧
      (Session.mk insideBranch (.ofAnswers ["c"])).AllOrNothing Script.console
        ((Instruction.modify "x" (.compound .plus inputAndUnknown) ⟨0, 0⟩).execute 0)
        (fun before after => ∃ scalar,
          ((Modification.compound .plus inputAndUnknown).newValue "x" before).outcome Script.console
            (.ofAnswers ["c"]) = .ok (.ofScalar scalar) ∧
          Store.Reassigned "x" scalar before after) ∧
      (Session.mk insideBranch (.ofAnswers ["c"])).hold Script.console
          ((Instruction.modify "x" (.compound .plus inputAndUnknown) ⟨0, 0⟩).execute 0) =
        (.fails (.unknownVariable "z"),
          ⟨insideBranch, { Script.ofAnswers [] with requests := 1 }⟩) :=
  ⟨insideBranch_reachable,
    (all_or_nothing insideBranch_reachable Script.console 0 "x" inputAndUnknown
      (.compound .plus inputAndUnknown) ⟨0, 0⟩).2.1, rfl⟩

end Session

end Letterline
