/-
Module: Letterline.Proofs.Preservation
Purpose: The names that a program mentions and those that it writes, and what a run keeps of
  the store that it began with.
Trusted boundary: none
Main exports:
  Condition.namesRead, Instruction.names, Program.names, Instruction.writtenNames,
  Store.Preserves, Execution.Keeps, Instruction.keeps_execute, Program.keeps_execute
-/
import Letterline.Proofs.Evaluation
import Letterline.Proofs.Execution

namespace Letterline

/-!
A run changes the store in four ways only: it declares a name, changes the value under a name,
opens a frame and closes the one that it opened.  What lasts under each of these, and can be
put together from parts, lasts through every run, however it ends.
-/

/-! ### The names of a program -/

/-- The names that the values of a condition read. -/
def Condition.namesRead (condition : Condition) : List String :=
  condition.values.flatMap Value.namesRead

namespace Instruction

mutual

/-- The names that an instruction declares, changes or reads, at any depth. -/
def names : Instruction → List String
  | .exit _ => []
  | .print value _ => value.namesRead
  | .declare name value _ => name :: value.namesRead
  | .modify name modification _ => name :: modification.namesRead
  | .branch condition thenBody none _ => condition.namesRead ++ namesIn thenBody
  | .branch condition thenBody (some elseBody) _ =>
      condition.namesRead ++ namesIn thenBody ++ namesIn elseBody
  | .whileLoop condition body _ => condition.namesRead ++ namesIn body
  | .forLoop init condition update body _ =>
      namesIn init ++ condition.namesRead ++ namesIn update ++ namesIn body

/-- The names in a body. -/
def namesIn : List Instruction → List String
  | [] => []
  | instruction :: rest => instruction.names ++ namesIn rest

end

mutual

/-- The names that an instruction declares or changes, at any depth. -/
def writtenNames : Instruction → List String
  | .exit _ => []
  | .print .. => []
  | .declare name _ _ => [name]
  | .modify name _ _ => [name]
  | .branch _ thenBody none _ => writtenNamesIn thenBody
  | .branch _ thenBody (some elseBody) _ => writtenNamesIn thenBody ++ writtenNamesIn elseBody
  | .whileLoop _ body _ => writtenNamesIn body
  | .forLoop init _ update body _ =>
      writtenNamesIn init ++ writtenNamesIn update ++ writtenNamesIn body

/-- The names that a body declares or changes. -/
def writtenNamesIn : List Instruction → List String
  | [] => []
  | instruction :: rest => instruction.writtenNames ++ writtenNamesIn rest

end

mutual

/-- What is written is mentioned. -/
theorem mem_names_of_mem_writtenNames {name : String} : ∀ instruction : Instruction,
    name ∈ instruction.writtenNames → name ∈ instruction.names
  | .exit _, written => nomatch written
  | .print .., written => nomatch written
  | .declare .., written => by
      rw [writtenNames, List.mem_singleton] at written
      simp [names, written]
  | .modify .., written => by
      rw [writtenNames, List.mem_singleton] at written
      simp [names, written]
  | .branch _ thenBody none _, written => by
      rw [writtenNames] at written
      simp [names, mem_namesIn_of_mem_writtenNamesIn thenBody written]
  | .branch _ thenBody (some elseBody) _, written => by
      rw [writtenNames, List.mem_append] at written
      rcases written with written | written
      · simp [names, mem_namesIn_of_mem_writtenNamesIn thenBody written]
      · simp [names, mem_namesIn_of_mem_writtenNamesIn elseBody written]
  | .whileLoop _ body _, written => by
      rw [writtenNames] at written
      simp [names, mem_namesIn_of_mem_writtenNamesIn body written]
  | .forLoop init _ update body _, written => by
      rw [writtenNames, List.mem_append, List.mem_append] at written
      rcases written with (written | written) | written
      · simp [names, mem_namesIn_of_mem_writtenNamesIn init written]
      · simp [names, mem_namesIn_of_mem_writtenNamesIn update written]
      · simp [names, mem_namesIn_of_mem_writtenNamesIn body written]

theorem mem_namesIn_of_mem_writtenNamesIn {name : String} : ∀ body : List Instruction,
    name ∈ writtenNamesIn body → name ∈ namesIn body
  | [], written => nomatch written
  | instruction :: rest, written => by
      rw [writtenNamesIn, List.mem_append] at written
      rw [namesIn, List.mem_append]
      exact written.imp (mem_names_of_mem_writtenNames instruction)
        (mem_namesIn_of_mem_writtenNamesIn rest)

end

end Instruction

/-- The names that a program declares, changes or reads. -/
def Program.names (program : Program) : List String :=
  Instruction.namesIn program.instructions

/-! ### What lasts -/

namespace Store

/-- A relation between an earlier and a later store that lasts under all that a run does under
the names of a kind. -/
structure Preserves (Named : String → Prop) (Kept : Store → Store → Prop) : Prop where
  refl : ∀ store, Kept store store
  trans : ∀ {before middle after}, Kept before middle → Kept middle after → Kept before after
  frame : ∀ {store after}, Kept store.push after → Kept store after.pop
  declare : ∀ {name} scalar store, Named name → Kept store (store.declare name (.ofScalar scalar))
  set : ∀ {name} scalar store, Named name → Kept store (store.set name (.ofScalar scalar))

end Store

namespace Execution

variable {Named : String → Prop} {Kept : Store → Store → Prop} {run next : Execution} {α : Type}

/-- However a run ends, it keeps the relation to the store that it began with. -/
structure Keeps (Kept : Store → Store → Prop) (run : Execution) : Prop where
  on : ∀ {store after ending}, (run store).MayEnd (ending, after) → Kept store after

namespace Keeps

theorem inFrame (preserves : Store.Preserves Named Kept) (inside : Keeps Kept run) :
    Keeps Kept (Execution.inFrame run) := by
  refine ⟨fun ends => ?_⟩
  obtain ⟨last, bodyEnds, rfl⟩ := mayEnd_inFrame.mp ends
  exact preserves.frame (inside.on bodyEnds)

theorem andThen (preserves : Store.Preserves Named Kept) (first : Keeps Kept run)
    (second : Keeps Kept next) : Keeps Kept (Execution.andThen run next) := by
  refine ⟨fun ends => ?_⟩
  obtain ⟨middle, firstEnds, secondEnds⟩ | ⟨_, firstEnds⟩ := mayEnd_andThen.mp ends
  · exact preserves.trans (first.on firstEnds) (second.on secondEnds)
  · exact first.on firstEnds

theorem given (preserves : Store.Preserves Named Kept) {evaluation : Store → Evaluation α}
    {body : α → Execution}
    (inside : ∀ {store after ending result}, (evaluation store).run.MayEnd (.ok result) →
      (body result store).MayEnd (ending, after) → Kept store after) :
    Keeps Kept (Execution.given evaluation body) := by
  refine ⟨fun ends => ?_⟩
  obtain ⟨result, evaluated, bodyEnds⟩ | ⟨_, _, _, rfl⟩ := mayEnd_given.mp ends
  · exact inside evaluated bodyEnds
  · exact preserves.refl _

theorem repeatWhile (preserves : Store.Preserves Named Kept) {limit : Nat}
    {condition : Store → Evaluation Bool} (inside : Keeps Kept run) :
    Keeps Kept (Execution.repeatWhile limit condition run) := by
  refine ⟨fun {store _ _} ends => ?_⟩
  obtain ⟨last, turns, lastTurn⟩ := mayEnd_repeatWhile ends
  have soFar : Kept store last :=
    turns.invariant (fun before bodyEnds => preserves.trans before (inside.on bodyEnds))
      (preserves.refl store)
  cases lastTurn with
  | faulty => exact soFar
  | done => exact soFar
  | left _ _ bodyEnds => exact preserves.trans soFar (inside.on bodyEnds)
  | spent => exact soFar

end Keeps
end Execution

namespace Instruction

open Execution Store

variable {Named : String → Prop} {Kept : Store → Store → Prop} {limit : Nat}

mutual

/-- An instruction keeps what lasts under all that is done to the names that it writes. -/
theorem keeps_execute (preserves : Preserves Named Kept) : ∀ instruction : Instruction,
    (∀ name ∈ instruction.writtenNames, Named name) → Keeps Kept (execute limit instruction)
  | .exit _, _ => ⟨fun ends => by cases ends; exact preserves.refl _⟩
  | .print value _, _ => by
      rw [execute]
      refine .given preserves fun _ printed => ?_
      rw [(mayEnd_print printed).1]
      exact preserves.refl _
  | .declare name value _, named => by
      rw [execute]
      refine .given preserves fun {store _ _ scalar} _ declared => ?_
      cases declared
      exact preserves.declare scalar store (named name (by simp [writtenNames]))
  | .modify name modification _, named => by
      rw [execute]
      refine .given preserves fun {store _ _ _} evaluated changed => ?_
      obtain ⟨scalar, rfl⟩ := Modification.newValue_settled evaluated
      cases changed
      exact preserves.set scalar store (named name (by simp [writtenNames]))
  | .branch condition thenBody none _, named => by
      rw [execute]
      refine .inFrame preserves (.given preserves fun {_ _ _ truth} _ bodyEnds => ?_)
      cases truth with
      | true =>
          exact (keeps_executeAll preserves thenBody fun name member =>
            named name (by simp [writtenNames, member])).on bodyEnds
      | false => cases bodyEnds; exact preserves.refl _
  | .branch condition thenBody (some elseBody) _, named => by
      rw [execute]
      refine .inFrame preserves (.given preserves fun {_ _ _ truth} _ bodyEnds => ?_)
      cases truth with
      | true =>
          exact (keeps_executeAll preserves thenBody fun name member =>
            named name (by simp [writtenNames, member])).on bodyEnds
      | false =>
          exact (keeps_executeAll preserves elseBody fun name member =>
            named name (by simp [writtenNames, member])).on bodyEnds
  | .whileLoop condition body _, named => by
      rw [execute]
      exact .repeatWhile preserves (.inFrame preserves (keeps_executeAll preserves body
        fun name member => named name (by simp [writtenNames, member])))
  | .forLoop init condition update body _, named => by
      have initKeeps : Keeps Kept (executeAll limit init) :=
        keeps_executeAll preserves init fun name member =>
          named name (by simp [writtenNames, member])
      have bodyKeeps : Keeps Kept (executeAll limit body) :=
        keeps_executeAll preserves body fun name member =>
          named name (by simp [writtenNames, member])
      have updateKeeps : Keeps Kept (executeAll limit update) :=
        keeps_executeAll preserves update fun name member =>
          named name (by simp [writtenNames, member])
      rw [execute]
      exact .inFrame preserves (.andThen preserves initKeeps (.repeatWhile preserves
        (.inFrame preserves (.andThen preserves bodyKeeps updateKeeps))))

/-- So do instructions in a row. -/
theorem keeps_executeAll (preserves : Preserves Named Kept) : ∀ body : List Instruction,
    (∀ name ∈ writtenNamesIn body, Named name) → Keeps Kept (executeAll limit body)
  | [], _ => ⟨fun ends => by cases ends; exact preserves.refl _⟩
  | instruction :: rest, named => by
      rw [executeAll]
      exact .andThen preserves
        (keeps_execute preserves instruction fun name member =>
          named name (by simp [writtenNamesIn, member]))
        (keeps_executeAll preserves rest fun name member =>
          named name (by simp [writtenNamesIn, member]))

end

end Instruction

/-- So does a program. -/
theorem Program.keeps_execute {Named : String → Prop} {Kept : Store → Store → Prop}
    {limit : Nat} {program : Program} (preserves : Store.Preserves Named Kept)
    (named : ∀ name ∈ program.names, Named name) :
    Execution.Keeps Kept (program.execute limit) := by
  refine ⟨fun ends => ?_⟩
  obtain ⟨reached, bodyEnds, _⟩ := mayEnd_execute ends
  exact (Instruction.keeps_executeAll preserves program.instructions fun name written =>
    named name (Instruction.mem_namesIn_of_mem_writtenNamesIn _ written)).on bodyEnds

end Letterline
