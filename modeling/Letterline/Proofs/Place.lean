/-
Module: Letterline.Proofs.Place
Purpose: The places of a body, the stores in which runs come to them, and the scopes in
  which the rule on undeclared names visits them.
Trusted boundary: none
Main exports:
  Place, Instruction.Reaches, Check.Visit, Check.visit?,
  Check.mem_declarationsIn_iff
-/
import Letterline.Check
import Letterline.Proofs.Execution

namespace Letterline

/-!
A place is a way into a body: past some of its instructions and into the bodies of
others.  A run comes to a place of a loop once for each turn, each time with the store
that the turns before have left.  The rule visits every place once.
-/

/-- A place in a body.  All places but those behind `later` concern its first
instruction. -/
inductive Place where
  /-- The instruction itself. -/
  | start
  /-- The condition of a loop. -/
  | condition
  /-- A place behind the first instruction. -/
  | later (place : Place)
  | inThen (place : Place)
  | inElse (place : Place)
  | inBody (place : Place)
  | inInit (place : Place)
  | inUpdate (place : Place)
deriving Repr, DecidableEq

/-! ### Where runs come to -/

namespace Instruction

open Execution

/-- A run of a body that begins in one store comes to a place in another, whatever it is
answered on the way and however often its loops turn. -/
inductive Reaches (limit : Nat) : List Instruction → Store → Place → Store → Prop where
  | start {instruction : Instruction} {rest : List Instruction} {store : Store} :
      Reaches limit (instruction :: rest) store .start store
  | later {instruction : Instruction} {rest : List Instruction} {place : Place}
      {store middle visited : Store}
      (headEnds : (execute limit instruction store).MayEnd (.proceeds, middle))
      (further : Reaches limit rest middle place visited) :
      Reaches limit (instruction :: rest) store (.later place) visited
  | inThen {condition : Condition} {thenBody rest : List Instruction}
      {elseBody : Option (List Instruction)} {span : Span} {place : Place}
      {store visited : Store}
      (truth : (condition.evaluate store.push).run.MayEnd (.ok true))
      (inside : Reaches limit thenBody store.push place visited) :
      Reaches limit (.branch condition thenBody elseBody span :: rest) store
        (.inThen place) visited
  | inElse {condition : Condition} {thenBody elseBody rest : List Instruction} {span : Span}
      {place : Place} {store visited : Store}
      (falsehood : (condition.evaluate store.push).run.MayEnd (.ok false))
      (inside : Reaches limit elseBody store.push place visited) :
      Reaches limit (.branch condition thenBody (some elseBody) span :: rest) store
        (.inElse place) visited
  | whileCondition {condition : Condition} {body rest : List Instruction} {span : Span}
      {store before : Store}
      (turns : Turns condition.evaluate (inFrame (executeAll limit body)) store before) :
      Reaches limit (.whileLoop condition body span :: rest) store .condition before
  | whileBody {condition : Condition} {body rest : List Instruction} {span : Span}
      {place : Place} {store before visited : Store}
      (turns : Turns condition.evaluate (inFrame (executeAll limit body)) store before)
      (truth : (condition.evaluate before).run.MayEnd (.ok true))
      (inside : Reaches limit body before.push place visited) :
      Reaches limit (.whileLoop condition body span :: rest) store (.inBody place) visited
  | inInit {init update body rest : List Instruction} {condition : Condition} {span : Span}
      {place : Place} {store visited : Store}
      (inside : Reaches limit init store.push place visited) :
      Reaches limit (.forLoop init condition update body span :: rest) store
        (.inInit place) visited
  | forCondition {init update body rest : List Instruction} {condition : Condition}
      {span : Span} {store head before : Store}
      (initEnds : (executeAll limit init store.push).MayEnd (.proceeds, head))
      (turns : Turns condition.evaluate
        (inFrame (andThen (executeAll limit body) (executeAll limit update))) head before) :
      Reaches limit (.forLoop init condition update body span :: rest) store
        .condition before
  | forBody {init update body rest : List Instruction} {condition : Condition}
      {span : Span} {place : Place} {store head before visited : Store}
      (initEnds : (executeAll limit init store.push).MayEnd (.proceeds, head))
      (turns : Turns condition.evaluate
        (inFrame (andThen (executeAll limit body) (executeAll limit update))) head before)
      (truth : (condition.evaluate before).run.MayEnd (.ok true))
      (inside : Reaches limit body before.push place visited) :
      Reaches limit (.forLoop init condition update body span :: rest) store
        (.inBody place) visited
  | forUpdate {init update body rest : List Instruction} {condition : Condition}
      {span : Span} {place : Place} {store head before middle visited : Store}
      (initEnds : (executeAll limit init store.push).MayEnd (.proceeds, head))
      (turns : Turns condition.evaluate
        (inFrame (andThen (executeAll limit body) (executeAll limit update))) head before)
      (truth : (condition.evaluate before).run.MayEnd (.ok true))
      (bodyEnds : (executeAll limit body before.push).MayEnd (.proceeds, middle))
      (inside : Reaches limit update middle place visited) :
      Reaches limit (.forLoop init condition update body span :: rest) store
        (.inUpdate place) visited

end Instruction

/-! ### Where the rule comes to -/

namespace Check

/-- The visit of the rule to a place: the scope in which it checks it, and what it finds
there itself, without the places inside. -/
structure Visit where
  scope : Scope
  found : List Finding

/-- What the rule finds where an instruction starts. -/
def foundAtStart (scope : Scope) : Instruction → List Finding
  | .print value span => undeclaredIn scope span value
  | .declare _ value span => undeclaredIn scope span value
  | .modify name modification span => undeclaredInModification scope span name modification
  | .branch condition _ _ span => undeclaredInCondition scope span condition
  | _ => []

/-- The visit to a place of a body that the rule enters in a scope. -/
def visit? : Place → List Instruction → Scope → Option Visit
  | .start, instruction :: _, scope => some ⟨scope, foundAtStart scope instruction⟩
  | .condition, .whileLoop condition _ span :: _, scope =>
      some ⟨scope, undeclaredInCondition scope span condition⟩
  | .condition, .forLoop init condition _ _ span :: _, scope =>
      let head := (declarationsIn init scope.push).2
      some ⟨head, undeclaredInCondition head span condition⟩
  | .later place, instruction :: rest, scope =>
      visit? place rest (declarations instruction scope).2
  | .inThen place, .branch _ thenBody _ _ :: _, scope => visit? place thenBody scope.push
  | .inElse place, .branch _ _ (some elseBody) _ :: _, scope =>
      visit? place elseBody scope.push
  | .inBody place, .whileLoop _ body _ :: _, scope => visit? place body scope.push
  | .inBody place, .forLoop init _ _ body _ :: _, scope =>
      visit? place body (declarationsIn init scope.push).2.push
  | .inInit place, .forLoop init _ _ _ _ :: _, scope => visit? place init scope.push
  | .inUpdate place, .forLoop init _ update body _ :: _, scope =>
      visit? place update (declarationsIn body (declarationsIn init scope.push).2.push).2
  | _, _, _ => none

variable {finding : Finding} {scope : Scope} {visit : Visit}

/-- What the rule finds on a visit is among its findings. -/
theorem mem_declarationsIn_of_visit (place : Place) {body : List Instruction}
    (visited : visit? place body scope = some visit) (found : finding ∈ visit.found) :
    finding ∈ (declarationsIn body scope).1 := by
  fun_induction visit? place body scope with
  | case1 instruction rest scope =>
      cases visited
      rw [declarationsIn, List.mem_append]
      refine Or.inl ?_
      cases instruction with
      | branch condition thenBody elseBody span =>
          cases elseBody <;> simp_all [foundAtStart, declarations]
      | _ => simp_all [foundAtStart, declarations]
  | case2 condition body span rest scope =>
      cases visited
      simp_all [declarationsIn, declarations]
  | case3 init condition update body span rest scope head =>
      cases visited
      simp_all [declarationsIn, declarations, head]
  | case4 place instruction rest scope inductionHypothesis =>
      simp_all [declarationsIn]
  | case5 place condition thenBody elseBody span rest scope inductionHypothesis =>
      cases elseBody <;> simp_all [declarationsIn, declarations]
  | case6 => simp_all [declarationsIn, declarations]
  | case7 => simp_all [declarationsIn, declarations]
  | case8 => simp_all [declarationsIn, declarations]
  | case9 => simp_all [declarationsIn, declarations]
  | case10 => simp_all [declarationsIn, declarations]
  | case11 => cases visited

/-- The rule finds something on a visit to a place. -/
def FoundAt (place : Place) (body : List Instruction) (scope : Scope) (finding : Finding) :
    Prop :=
  ∃ visit, visit? place body scope = some visit ∧ finding ∈ visit.found

mutual

/-- Every finding in an instruction is made on a visit. -/
theorem foundAt_of_mem_declarations : ∀ {instruction : Instruction} {scope : Scope}
    (rest : List Instruction), finding ∈ (declarations instruction scope).1 →
      ∃ place, FoundAt place (instruction :: rest) scope finding
  | .exit _, _, _, found => by cases found
  | .print .., _, _, found => ⟨.start, _, rfl, found⟩
  | .declare .., _, _, found => ⟨.start, _, rfl, found⟩
  | .modify .., _, _, found => ⟨.start, _, rfl, found⟩
  | .branch condition thenBody none span, scope, _, found => by
      rw [declarations, List.mem_append] at found
      rcases found with inCondition | inThen
      · exact ⟨.start, _, rfl, inCondition⟩
      · obtain ⟨place, visited⟩ := foundAt_of_mem_declarationsIn inThen
        exact ⟨.inThen place, visited⟩
  | .branch condition thenBody (some elseBody) span, scope, _, found => by
      simp only [declarations, List.mem_append] at found
      obtain (inCondition | inThen) | inElse := found
      · exact ⟨.start, _, rfl, inCondition⟩
      · obtain ⟨place, visited⟩ := foundAt_of_mem_declarationsIn inThen
        exact ⟨.inThen place, visited⟩
      · obtain ⟨place, visited⟩ := foundAt_of_mem_declarationsIn inElse
        exact ⟨.inElse place, visited⟩
  | .whileLoop condition body span, scope, _, found => by
      rw [declarations, List.mem_append] at found
      rcases found with inCondition | inBody
      · exact ⟨.condition, _, rfl, inCondition⟩
      · obtain ⟨place, visited⟩ := foundAt_of_mem_declarationsIn inBody
        exact ⟨.inBody place, visited⟩
  | .forLoop init condition update body span, scope, _, found => by
      simp only [declarations, List.mem_append] at found
      obtain ((inInit | inCondition) | inBody) | inUpdate := found
      · obtain ⟨place, visited⟩ := foundAt_of_mem_declarationsIn inInit
        exact ⟨.inInit place, visited⟩
      · exact ⟨.condition, _, rfl, inCondition⟩
      · obtain ⟨place, visited⟩ := foundAt_of_mem_declarationsIn inBody
        exact ⟨.inBody place, visited⟩
      · obtain ⟨place, visited⟩ := foundAt_of_mem_declarationsIn inUpdate
        exact ⟨.inUpdate place, visited⟩

/-- Every finding in a body is made on a visit. -/
theorem foundAt_of_mem_declarationsIn : ∀ {body : List Instruction} {scope : Scope},
    finding ∈ (declarationsIn body scope).1 → ∃ place, FoundAt place body scope finding
  | [], _, found => by cases found
  | instruction :: rest, scope, found => by
      rw [declarationsIn, List.mem_append] at found
      rcases found with atHead | further
      · exact foundAt_of_mem_declarations rest atHead
      · obtain ⟨place, visited⟩ := foundAt_of_mem_declarationsIn further
        exact ⟨.later place, visited⟩

end

/-- The findings of the rule are those of its visits. -/
theorem mem_declarationsIn_iff {body : List Instruction} :
    finding ∈ (declarationsIn body scope).1 ↔
      ∃ place, FoundAt place body scope finding := by
  constructor
  · exact foundAt_of_mem_declarationsIn
  · intro evidence
    rcases evidence with ⟨place, visit, visited, found⟩
    exact mem_declarationsIn_of_visit place visited found

end Check

end Letterline
