/-
Module: Letterline.Proofs.Effect
Purpose: What running a body can do to the names and frames of a store.
Trusted boundary: none
Main exports:
  Instruction.directNames, Instruction.innerNames, Instruction.allNames, Store.Effect,
  Store.Confined, Instruction.effect_of_executeAll, Instruction.confined_of_inFrame
-/
import Letterline.Proofs.Evaluation
import Letterline.Proofs.Execution

namespace Letterline

/-!
A body declares names directly, in the frame that it runs in, and in the bodies inside
it, whose frames are closed before it goes on.  Whatever the ending and the turns of its
loops, a body adds names of the first kind only, and it removes at most names of the
second kind.  Closing its own frame then removes what it added.
-/

/-! ### Declared names -/

namespace Instruction

/-- The name that an instruction itself declares. -/
def declaredName? : Instruction → Option String
  | .declare name _ _ => some name
  | _ => none

theorem exists_of_declaredName {instruction : Instruction} {name : String}
    (declared : instruction.declaredName? = some name) :
    ∃ value span, instruction = .declare name value span := by
  cases instruction with
  | declare other value span => cases declared; exact ⟨value, span, rfl⟩
  | _ => cases declared

/-- The names that a body declares itself. -/
def directNames (body : List Instruction) : List String :=
  body.filterMap declaredName?

mutual

/-- The names that are declared in the bodies of an instruction, at any depth. -/
def innerNames : Instruction → List String
  | .exit _ => []
  | .print .. => []
  | .declare .. => []
  | .modify .. => []
  | .branch _ thenBody none _ => directNames thenBody ++ innerNamesIn thenBody
  | .branch _ thenBody (some elseBody) _ =>
      (directNames thenBody ++ innerNamesIn thenBody)
        ++ (directNames elseBody ++ innerNamesIn elseBody)
  | .whileLoop _ body _ => directNames body ++ innerNamesIn body
  | .forLoop init _ update body _ =>
      (directNames init ++ innerNamesIn init)
        ++ ((directNames body ++ directNames update)
          ++ (innerNamesIn body ++ innerNamesIn update))

/-- The names that are declared in bodies inside a body, at any depth. -/
def innerNamesIn : List Instruction → List String
  | [] => []
  | instruction :: rest => innerNames instruction ++ innerNamesIn rest

end

theorem directNames_cons (instruction : Instruction) (rest : List Instruction) :
    directNames (instruction :: rest) =
      instruction.declaredName?.toList ++ directNames rest := by
  cases declared : instruction.declaredName? <;> simp [directNames, declared]

/-- The names that are declared in a body, at any depth. -/
def allNames (body : List Instruction) : List String :=
  directNames body ++ innerNamesIn body

end Instruction

/-! ### Effects on a store -/

namespace Store

variable {direct inner names wider : List String} {before middle after : Store}

/-- What instructions can do that declare `direct` names themselves and `inner` names
in bodies inside them. -/
structure Effect (direct inner : List String) (before after : Store) : Prop where
  /-- Only the top frame changes. -/
  below : after.frames.tail = before.frames.tail
  /-- It owns new names only by declaration. -/
  owned : ∀ name ∈ after.topNames, name ∈ before.topNames ∨ name ∈ direct
  /-- It loses none. -/
  opened : ∀ name ∈ before.topNames, name ∈ after.topNames
  /-- A variable that is new belongs to it. -/
  added : ∀ name, after.isDeclared name → before.isDeclared name ∨ name ∈ after.topNames
  /-- Names that are not declared keep their variables. -/
  kept : ∀ name, name ∉ direct → name ∉ inner →
    (after.isDeclared name ↔ before.isDeclared name)
  /-- Values stay evaluated. -/
  settled : before.Settled → after.Settled

/-- What a body can do whose frame has been closed: it removes variables, and only
those of names that it declares. -/
structure Confined (names : List String) (before after : Store) : Prop where
  frames : after.frames = before.frames
  added : ∀ name, after.isDeclared name → before.isDeclared name
  kept : ∀ name, name ∉ names → before.isDeclared name → after.isDeclared name
  settled : before.Settled → after.Settled

theorem Effect.refl (store : Store) : Effect direct inner store store :=
  ⟨rfl, fun _ => Or.inl, fun _ => id, fun _ => Or.inl, fun _ _ _ => Iff.rfl, id⟩

theorem Effect.trans (first : Effect direct inner before middle)
    (second : Effect direct inner middle after) : Effect direct inner before after where
  below := second.below.trans first.below
  owned name member := (second.owned name member).elim (first.owned name) Or.inr
  opened name member := second.opened name (first.opened name member)
  added name declared := by
    obtain earlier | new := second.added name declared
    · exact (first.added name earlier).imp_right (second.opened name)
    · exact Or.inr new
  kept name direct inner := (second.kept name direct inner).trans (first.kept name direct inner)
  settled := second.settled ∘ first.settled

theorem Effect.mono {widerDirect widerInner : List String}
    (effect : Effect direct inner before after) (directSubset : direct ⊆ widerDirect)
    (innerSubset : inner ⊆ widerInner) : Effect widerDirect widerInner before after where
  below := effect.below
  owned name member := (effect.owned name member).imp_right (@directSubset name)
  opened := effect.opened
  added := effect.added
  kept name direct inner :=
    effect.kept name (fun member => direct (directSubset member))
      (fun member => inner (innerSubset member))
  settled := effect.settled

theorem Confined.refl (store : Store) : Confined names store store :=
  ⟨rfl, fun _ => id, fun _ _ => id, id⟩

theorem Confined.trans (first : Confined names before middle)
    (second : Confined names middle after) : Confined names before after where
  frames := second.frames.trans first.frames
  added name := first.added name ∘ second.added name
  kept name outside := second.kept name outside ∘ first.kept name outside
  settled := second.settled ∘ first.settled

theorem Confined.mono (confined : Confined names before after) (subset : names ⊆ wider) :
    Confined wider before after where
  frames := confined.frames
  added := confined.added
  kept name outside := confined.kept name fun member => outside (subset member)
  settled := confined.settled

theorem Confined.effect (confined : Confined inner before after) :
    Effect direct inner before after where
  below := by rw [confined.frames]
  owned name member := Or.inl (by rwa [topNames, confined.frames] at member)
  opened name member := by rwa [topNames, confined.frames]
  added name declared := Or.inl (confined.added name declared)
  kept name _ outside := ⟨confined.added name, confined.kept name outside⟩
  settled := confined.settled

theorem Effect.declare (name : String) (scalar : Scalar) (store : Store) :
    Effect [name] inner store (store.declare name (.ofScalar scalar)) where
  below := tail_record _
  owned other member := by
    obtain rfl | old := (mem_head_record _).mp member
    · exact Or.inr List.mem_cons_self
    · exact Or.inl old
  opened other member := (mem_head_record _).mpr (Or.inr member)
  added other declared := by
    obtain rfl | old := isDeclared_declare.mp declared
    · exact Or.inr ((mem_head_record _).mpr (Or.inl rfl))
    · exact Or.inl old
  kept other direct _ := by
    rw [isDeclared_declare]
    exact or_iff_right fun same => direct (same ▸ List.mem_cons_self)
  settled settled := settled.declare name scalar

theorem Confined.set (name : String) (scalar : Scalar) (store : Store) :
    Confined names store (store.set name (.ofScalar scalar)) where
  frames := rfl
  added _ := isDeclared_set.mp
  kept _ _ := isDeclared_set.mpr
  settled settled := settled.set name scalar

/-- Closing the frame of a body removes what the body added. -/
theorem Effect.confined (effect : Effect direct inner before.push after) :
    Confined (direct ++ inner) before after.pop where
  frames := by rw [frames_pop, effect.below]; rfl
  added name declared := by
    obtain ⟨live, outside⟩ := isDeclared_pop.mp declared
    exact (effect.added name live).resolve_right outside
  kept name outside declared := by
    rw [List.mem_append, not_or] at outside
    refine isDeclared_pop.mpr ⟨(effect.kept name outside.1 outside.2).mpr declared, ?_⟩
    intro member
    obtain impossible | new := effect.owned name member
    · cases impossible
    · exact outside.1 new
  settled settled := (effect.settled settled.push).pop

end Store

/-! ### Effects of executions -/

namespace Instruction

open Execution Store

variable {limit : Nat} {store after : Store} {ending : Ending}

/-- A body in a frame of its own is confined if it has an effect. -/
theorem confined_of_inFrame {body : Execution} {direct inner : List String}
    (effect : ∀ {before after : Store} {ending : Ending},
      (body before).MayEnd (ending, after) → Effect direct inner before after)
    (ends : (inFrame body store).MayEnd (ending, after)) :
    Confined (direct ++ inner) store after := by
  obtain ⟨last, bodyEnds, rfl⟩ := mayEnd_inFrame.mp ends
  exact (effect bodyEnds).confined

/-- The turns of a loop are confined if its body is. -/
theorem confined_of_turns {condition : Store → Evaluation Bool} {body : Execution}
    {names : List String}
    (confined : ∀ {before after : Store} {ending : Ending},
      (body before).MayEnd (ending, after) → Confined names before after)
    (turns : Turns condition body store after) : Confined names store after :=
  turns.invariant (fun soFar bodyEnds => soFar.trans (confined bodyEnds)) (Confined.refl store)

/-- A loop is confined if its body is. -/
theorem confined_of_repeatWhile {condition : Store → Evaluation Bool} {body : Execution}
    {names : List String}
    (confined : ∀ {before after : Store} {ending : Ending},
      (body before).MayEnd (ending, after) → Confined names before after)
    (ends : (repeatWhile limit condition body store).MayEnd (ending, after)) :
    Confined names store after := by
  obtain ⟨last, turns, lastTurn⟩ := mayEnd_repeatWhile ends
  have soFar : Confined names store last := confined_of_turns confined turns
  cases lastTurn with
  | faulty => exact soFar
  | done => exact soFar
  | left _ _ bodyEnds => exact soFar.trans (confined bodyEnds)
  | spent => exact soFar

/-- Two parts have an effect together if each has. -/
theorem effect_of_andThen {first second : Execution} {direct inner : List String}
    (firstEffect : ∀ {before after : Store} {ending : Ending},
      (first before).MayEnd (ending, after) → Effect direct inner before after)
    (secondEffect : ∀ {before after : Store} {ending : Ending},
      (second before).MayEnd (ending, after) → Effect direct inner before after)
    (ends : (andThen first second store).MayEnd (ending, after)) :
    Effect direct inner store after := by
  obtain ⟨middle, firstEnds, secondEnds⟩ | ⟨_, firstEnds⟩ := mayEnd_andThen.mp ends
  · exact (firstEffect firstEnds).trans (secondEffect secondEnds)
  · exact firstEffect firstEnds

/-- Two parts that share a frame are confined by the names of both. -/
theorem confined_of_turn {first second : Execution}
    {firstDirect firstInner secondDirect secondInner : List String}
    (firstEffect : ∀ {before after : Store} {ending : Ending},
      (first before).MayEnd (ending, after) → Effect firstDirect firstInner before after)
    (secondEffect : ∀ {before after : Store} {ending : Ending},
      (second before).MayEnd (ending, after) → Effect secondDirect secondInner before after)
    (ends : (inFrame (andThen first second) store).MayEnd (ending, after)) :
    Confined ((firstDirect ++ secondDirect) ++ (firstInner ++ secondInner)) store after :=
  confined_of_inFrame (effect_of_andThen
    (fun firstEnds => (firstEffect firstEnds).mono
      (List.subset_append_left _ _) (List.subset_append_left _ _))
    (fun secondEnds => (secondEffect secondEnds).mono
      (List.subset_append_right _ _) (List.subset_append_right _ _))) ends

/-- An evaluation has no effect of its own. -/
theorem confined_of_given {α : Type} {evaluation : Store → Evaluation α}
    {body : α → Execution} {names : List String}
    (confined : ∀ {result : α}, (evaluation store).run.MayEnd (.ok result) →
      (body result store).MayEnd (ending, after) → Confined names store after)
    (ends : (given evaluation body store).MayEnd (ending, after)) :
    Confined names store after := by
  obtain ⟨result, evaluated, bodyEnds⟩ | ⟨_, _, _, rfl⟩ := mayEnd_given.mp ends
  · exact confined evaluated bodyEnds
  · exact Confined.refl _

/-- A declaration adds its name.  Another instruction has an effect if it is confined. -/
theorem effect_of_confined {instruction : Instruction}
    (confined : instruction.declaredName? = none →
      Confined instruction.innerNames store after)
    (ends : (execute limit instruction store).MayEnd (ending, after)) :
    Effect instruction.declaredName?.toList instruction.innerNames store after := by
  cases instruction with
  | declare name value span =>
      rw [execute] at ends
      rcases mayEnd_given.mp ends with ⟨scalar, _, declared⟩ | ⟨_, _, _, rfl⟩
      · cases declared
        exact Effect.declare name scalar store
      · exact Effect.refl _
  | _ => exact (confined rfl).effect

mutual

/-- An instruction that is no declaration is confined by the names in its bodies. -/
theorem confined_of_execute : ∀ {instruction : Instruction} {store after : Store}
    {ending : Ending}, instruction.declaredName? = none →
      (execute limit instruction store).MayEnd (ending, after) →
        Confined instruction.innerNames store after
  | .exit _, _, _, _, _, ends => by
      cases ends
      exact Confined.refl _
  | .print value _, _, _, _, _, ends => by
      rw [execute] at ends
      exact confined_of_given (fun _ printed => (mayEnd_print printed).1 ▸ Confined.refl _) ends
  | .declare .., _, _, _, direct, _ => by cases direct
  | .modify name modification _, store, _, _, _, ends => by
      rw [execute] at ends
      refine confined_of_given (fun evaluated assigned => ?_) ends
      obtain ⟨scalar, rfl⟩ := Modification.newValue_settled evaluated
      cases assigned
      exact Confined.set name scalar store
  | .branch condition thenBody none _, store, _, _, _, ends => by
      rw [execute] at ends
      refine confined_of_inFrame (fun bodyEnds => ?_) ends
      obtain ⟨truth, _, bodyEnds⟩ | ⟨_, _, _, rfl⟩ := mayEnd_given.mp bodyEnds
      · cases truth with
        | true => exact effect_of_executeAll bodyEnds
        | false => cases bodyEnds; exact Effect.refl _
      · exact Effect.refl _
  | .branch condition thenBody (some elseBody) _, store, _, _, _, ends => by
      rw [execute] at ends
      obtain ⟨last, bodyEnds, rfl⟩ := mayEnd_inFrame.mp ends
      obtain ⟨truth, _, bodyEnds⟩ | ⟨_, _, _, rfl⟩ := mayEnd_given.mp bodyEnds
      · cases truth with
        | true =>
            exact (effect_of_executeAll bodyEnds).confined.mono
              (List.subset_append_left _ _)
        | false =>
            exact (effect_of_executeAll bodyEnds).confined.mono
              (List.subset_append_right _ _)
      · have unchanged : Effect [] [] store.push store.push := Effect.refl _
        exact unchanged.confined.mono (List.nil_subset _)
  | .whileLoop condition body _, store, _, _, _, ends => by
      rw [execute] at ends
      exact confined_of_repeatWhile (confined_of_inFrame effect_of_executeAll) ends
  | .forLoop init condition update body _, store, _, _, _, ends => by
      rw [execute] at ends
      have loop : ∀ {before after : Store} {ending : Ending},
          (repeatWhile limit condition.evaluate
            (inFrame (andThen (executeAll limit body) (executeAll limit update)))
            before).MayEnd (ending, after) →
          Confined ((directNames body ++ directNames update)
            ++ (innerNamesIn body ++ innerNamesIn update)) before after :=
        confined_of_repeatWhile (confined_of_turn effect_of_executeAll effect_of_executeAll)
      rw [innerNames, List.append_assoc]
      exact confined_of_inFrame (effect_of_andThen
        (fun initEnds => (effect_of_executeAll initEnds).mono
          (List.Subset.refl _) (List.subset_append_left _ _))
        (fun loopEnds => ((loop loopEnds).mono (List.subset_append_right _ _)).effect)) ends

/-- A body has an effect on the names that it declares and those of bodies inside. -/
theorem effect_of_executeAll : ∀ {body : List Instruction} {store after : Store}
    {ending : Ending}, (executeAll limit body store).MayEnd (ending, after) →
      Effect (directNames body) (innerNamesIn body) store after
  | [], _, _, _, ends => by
      cases ends
      exact Effect.refl _
  | instruction :: rest, store, _, _, ends => by
      rw [executeAll] at ends
      rw [directNames_cons]
      exact effect_of_andThen
        (fun headEnds =>
          (effect_of_confined (fun direct => confined_of_execute direct headEnds) headEnds).mono
            (List.subset_append_left _ _) (List.subset_append_left _ _))
        (fun restEnds => (effect_of_executeAll restEnds).mono
          (List.subset_append_right _ _) (List.subset_append_right _ _)) ends

end

/-- An instruction adds at most the name that it declares. -/
theorem effect_of_execute {instruction : Instruction}
    (ends : (execute limit instruction store).MayEnd (ending, after)) :
    Effect instruction.declaredName?.toList instruction.innerNames store after :=
  effect_of_confined (fun direct => confined_of_execute direct ends) ends

end Instruction

end Letterline
