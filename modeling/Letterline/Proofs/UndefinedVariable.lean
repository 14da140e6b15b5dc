/-
Module: Letterline.Proofs.UndefinedVariable
Purpose: Which uses of removed variables the rule on undeclared names misses, and that
  a program without such uses and without findings never meets an unknown variable.
Trusted boundary: none
Main exports:
  Check.lasting, Check.missed, Check.missedNames, no_unknown_variable_of_silent
-/
import Letterline.Proofs.Effect
import Letterline.Session

namespace Letterline

/-!
The rule takes a name for removed when the body ends that declares it.  Two removals
escape it.  A body inside that body has removed its own names as well, but the rule
gives up the scope in which it noted this.  And a loop evaluates its condition and runs
its body again after its first turn has removed names, but the rule checks both once,
in the scope in front of the loop.

`Check.missed` follows both kinds of removal and collects the uses that the rule lets
pass because of them.  A program in which it collects nothing behaves as the rule says.
-/

namespace Check

open Instruction

/-- The names that are still declared behind an instruction, whatever bodies ran. -/
def lasting : Instruction → List String → List String
  | .declare name _ _, live => name :: live
  | instruction, live => live.filter (· ∉ innerNames instruction)

/-- The names that are still declared behind instructions, whatever bodies ran. -/
def lastingIn (body : List Instruction) (live : List String) : List String :=
  body.foldl (fun live instruction => lasting instruction live) live

/-- Of the names that are used, those that a scope holds although they may have been
removed. -/
def falselyHeld (scope : Scope) (live used : List String) : List String :=
  used.filter fun name => name ∈ scope.names ∧ name ∉ live

/-- The names that the values of a condition read. -/
def conditionNames (condition : Condition) : List String :=
  condition.values.flatMap Value.namesRead

mutual

/-- The names that an instruction uses although they may have been removed, and that
the rule lets pass.  The rule checks it in `scope`; of the names declared there, those
in `live` have not been removed. -/
def missed : Instruction → Scope → List String → List String
  | .exit _, _, _ => []
  | .print value _, scope, live => falselyHeld scope live value.namesRead
  | .declare _ value _, scope, live => falselyHeld scope live value.namesRead
  | .modify name modification _, scope, live =>
      falselyHeld scope live (name :: modification.namesRead)
  | .branch condition thenBody none _, scope, live =>
      falselyHeld scope live (conditionNames condition)
        ++ missedIn thenBody scope.push live
  | .branch condition thenBody (some elseBody) _, scope, live =>
      falselyHeld scope live (conditionNames condition)
        ++ missedIn thenBody scope.push live ++ missedIn elseBody scope.push live
  | .whileLoop condition body _, scope, live =>
      -- Every turn begins where the one before has removed the names of the body.
      let entry := live.filter (· ∉ allNames body)
      falselyHeld scope entry (conditionNames condition) ++ missedIn body scope.push entry
  | .forLoop init condition update body _, scope, live =>
      let head := (declarationsIn init scope.push).2
      let inBody := (declarationsIn body head.push).2
      let entry := (lastingIn init live).filter
        fun name => name ∉ allNames body ∧ name ∉ allNames update
      missedIn init scope.push live ++ falselyHeld head entry (conditionNames condition)
        ++ missedIn body head.push entry ++ missedIn update inBody (lastingIn body entry)

/-- The names that instructions in a row use although they may have been removed, and
that the rule lets pass. -/
def missedIn : List Instruction → Scope → List String → List String
  | [], _, _ => []
  | instruction :: rest, scope, live =>
      missed instruction scope live
        ++ missedIn rest (declarations instruction scope).2 (lasting instruction live)

end

/-- The names that a program uses although they may have been removed, and that the
rule lets pass. -/
def missedNames (program : Program) : List String :=
  missedIn program.instructions .empty []

/-! ### What a silent rule says -/

variable {scope : Scope} {live used : List String} {name : String} {span : Span}

theorem held_of_silent_value {value : Value} (silent : undeclaredIn scope span value = []) :
    ∀ name ∈ value.namesRead, name ∈ scope.names := by
  simpa [undeclaredIn] using silent

theorem held_of_silent_condition {condition : Condition}
    (silent : undeclaredInCondition scope span condition = []) :
    ∀ name ∈ conditionNames condition, name ∈ scope.names := by
  intro name member
  obtain ⟨value, valueMember, read⟩ := List.mem_flatMap.mp member
  exact held_of_silent_value (List.flatMap_eq_nil_iff.mp silent value valueMember) name read

theorem held_of_silent_modification {target : String} {modification : Modification}
    (silent : undeclaredInModification scope span target modification = []) :
    ∀ name ∈ target :: modification.namesRead, name ∈ scope.names := by
  cases modification with
  | increment => simpa [undeclaredInModification, Modification.namesRead] using silent
  | decrement => simpa [undeclaredInModification, Modification.namesRead] using silent
  | compound operator value =>
      obtain ⟨silentTarget, silentValue⟩ := List.append_eq_nil_iff.mp silent
      have held : target ∈ scope.names := by simpa using silentTarget
      exact List.forall_mem_cons.mpr ⟨held, held_of_silent_value silentValue⟩
  | assign value =>
      obtain ⟨silentTarget, silentValue⟩ := List.append_eq_nil_iff.mp silent
      have held : target ∈ scope.names := by simpa using silentTarget
      exact List.forall_mem_cons.mpr ⟨held, held_of_silent_value silentValue⟩

theorem undeclared_of_condition {condition : Condition} {store : Store}
    (fails : (condition.evaluate store).run.MayEnd (.error (.unknownVariable name))) :
    name ∈ conditionNames condition ∧ ¬ store.isDeclared name := by
  obtain ⟨⟨value, member, read⟩, undeclared⟩ := Condition.undeclared_of_evaluate fails
  exact ⟨List.mem_flatMap.mpr ⟨value, member, read⟩, undeclared⟩

/-- A used name that a silent rule does not let pass wrongly has not been removed. -/
theorem live_of_used (held : ∀ name ∈ used, name ∈ scope.names)
    (noticed : name ∉ falselyHeld scope live used) (member : name ∈ used) : name ∈ live := by
  refine Classical.byContradiction fun removed => ?_
  exact noticed (by simp [falselyHeld, member, held name member, removed])

end Check

/-! ### Names that last -/

namespace Instruction

open Execution Check

variable {limit : Nat} {store after : Store} {ending : Ending} {name : String}

theorem lasting_of_declaredName_eq_none {instruction : Instruction} {live : List String}
    (direct : instruction.declaredName? = none) :
    lasting instruction live = live.filter (· ∉ innerNames instruction) := by
  cases instruction with
  | declare => cases direct
  | _ => rfl

/-- The names that last are declared where the next instruction begins. -/
theorem declared_of_lasting {instruction : Instruction} {live : List String}
    (declared : name ∈ live → store.isDeclared name)
    (ends : (execute limit instruction store).MayEnd (.proceeds, after)) :
    name ∈ lasting instruction live → after.isDeclared name := by
  intro member
  cases direct : instruction.declaredName? with
  | none =>
      rw [lasting_of_declaredName_eq_none direct, List.mem_filter, decide_eq_true_eq] at member
      exact (confined_of_execute direct ends).kept name member.2 (declared member.1)
  | some other =>
      obtain ⟨value, span, rfl⟩ := exists_of_declaredName direct
      rw [execute] at ends
      obtain ⟨scalar, _, done⟩ | ⟨_, _, impossible, _⟩ := mayEnd_given.mp ends
      · cases done
        rw [Store.isDeclared_declare]
        exact (List.mem_cons.mp member).imp_right declared
      · cases impossible

theorem declared_of_lastingIn {body : List Instruction} :
    ∀ {live : List String} {store : Store}, (name ∈ live → store.isDeclared name) →
      (executeAll limit body store).MayEnd (.proceeds, after) →
        name ∈ lastingIn body live → after.isDeclared name := by
  induction body with
  | nil =>
      intro live store declared ends
      cases ends
      exact declared
  | cons instruction rest inductionHypothesis =>
      intro live store declared ends
      rw [executeAll] at ends
      obtain ⟨middle, headEnds, restEnds⟩ | ⟨impossible, _⟩ := mayEnd_andThen.mp ends
      · exact inductionHypothesis (declared_of_lasting declared headEnds) restEnds
      · exact False.elim (impossible rfl)

/-! ### No unknown variable -/

/-- An evaluation reports no name that is declared. -/
theorem known_of_given {α : Type} {evaluation : Store → Evaluation α} {body : α → Execution}
    {used : List String} (known : name ∈ used → store.isDeclared name)
    (reads : (evaluation store).run.MayEnd (.error (.unknownVariable name)) →
      name ∈ used ∧ ¬ store.isDeclared name)
    (bodyKnown : ∀ {result : α}, (body result store).MayEnd (ending, after) →
      ending ≠ .fails (.unknownVariable name))
    (ends : (given evaluation body store).MayEnd (ending, after)) :
    ending ≠ .fails (.unknownVariable name) :=
  ne_fails_of_given (fun fails => (reads fails).2 (known (reads fails).1)) bodyKnown ends

/-- A loop reports no unknown variable if neither its condition nor its body does where
a turn begins. -/
theorem known_of_repeatWhile {condition : Condition} {body : Execution}
    (Invariant : Store → Prop)
    (kept : ∀ {before next : Store}, Invariant before →
      (body before).MayEnd (.proceeds, next) → Invariant next)
    (known : ∀ {before : Store}, Invariant before →
      name ∈ conditionNames condition → before.isDeclared name)
    (bodyKnown : ∀ before {after : Store} {ending : Ending}, Invariant before →
      (body before).MayEnd (ending, after) → ending ≠ .fails (.unknownVariable name))
    (holds : Invariant store)
    (ends : (repeatWhile limit condition.evaluate body store).MayEnd (ending, after)) :
    ending ≠ .fails (.unknownVariable name) := by
  refine ne_fails_of_repeatWhile Invariant kept (fun held fails => ?_) bodyKnown holds ends
  obtain ⟨member, undeclared⟩ := undeclared_of_condition fails
  exact undeclared (known held member)

mutual

/-- A name that is declared unless it may have been removed, and that the rule does not
let pass wrongly, is never reported as unknown. -/
theorem known_of_execute : ∀ {instruction : Instruction} {scope : Scope}
    {live : List String} {store after : Store} {ending : Ending}, store.Settled →
      (name ∈ live → store.isDeclared name) → (declarations instruction scope).1 = [] →
        name ∉ missed instruction scope live →
          (execute limit instruction store).MayEnd (ending, after) →
            ending ≠ .fails (.unknownVariable name)
  | .exit _, _, _, _, _, _, _, _, _, _, ends => by
      cases ends
      nofun
  | .print value _, scope, live, _, _, _, _, declared, silent, noticed, ends => by
      rw [execute] at ends
      refine known_of_given
        (declared ∘ live_of_used (held_of_silent_value silent) noticed)
        Value.undeclared_of_result (fun printed => ?_) ends
      obtain ⟨_, rfl | ⟨_, rfl⟩⟩ := mayEnd_print printed <;> nofun
  | .declare _ value _, scope, live, _, _, _, _, declared, silent, noticed, ends => by
      rw [execute] at ends
      refine known_of_given
        (declared ∘ live_of_used (held_of_silent_value silent) noticed)
        Value.undeclared_of_result (fun done => ?_) ends
      cases done
      nofun
  | .modify target modification _, scope, live, _, _, _, settled, declared, silent, noticed,
      ends => by
      rw [execute] at ends
      refine known_of_given
        (declared ∘ live_of_used (held_of_silent_modification silent) noticed)
        (fun fails => ?_) (fun done => ?_) ends
      · obtain ⟨read, undeclared⟩ := Modification.undeclared_of_newValue settled fails
        exact ⟨List.mem_cons.mpr read, undeclared⟩
      · cases done
        nofun
  | .branch condition thenBody none _, scope, live, store, _, _, settled, declared, silent,
      noticed, ends => by
      rw [execute] at ends
      obtain ⟨_, bodyEnds, _⟩ := mayEnd_inFrame.mp ends
      rw [declarations, List.append_eq_nil_iff] at silent
      rw [missed, List.mem_append, not_or] at noticed
      have inside : name ∈ live → store.push.isDeclared name := declared
      refine known_of_given
        (inside ∘ live_of_used (held_of_silent_condition silent.1) noticed.1)
        undeclared_of_condition (fun {truth} taken => ?_) bodyEnds
      cases truth with
      | true => exact known_of_executeAll settled.push inside silent.2 noticed.2 taken
      | false => cases taken; nofun
  | .branch condition thenBody (some elseBody) _, scope, live, store, _, _, settled, declared,
      silent, noticed, ends => by
      rw [execute] at ends
      obtain ⟨_, bodyEnds, _⟩ := mayEnd_inFrame.mp ends
      rw [declarations, List.append_eq_nil_iff, List.append_eq_nil_iff] at silent
      rw [missed, List.mem_append, List.mem_append, not_or, not_or] at noticed
      have inside : name ∈ live → store.push.isDeclared name := declared
      refine known_of_given
        (inside ∘ live_of_used (held_of_silent_condition silent.1.1) noticed.1.1)
        undeclared_of_condition (fun {truth} taken => ?_) bodyEnds
      cases truth with
      | true => exact known_of_executeAll settled.push inside silent.1.2 noticed.1.2 taken
      | false => exact known_of_executeAll settled.push inside silent.2 noticed.2 taken
  | .whileLoop condition body _, scope, live, store, _, _, settled, declared, silent, noticed,
      ends => by
      rw [execute] at ends
      rw [declarations, List.append_eq_nil_iff] at silent
      rw [missed, List.mem_append, not_or] at noticed
      let entry := live.filter (· ∉ allNames body)
      refine known_of_repeatWhile
        (fun store => store.Settled ∧ (name ∈ entry → store.isDeclared name))
        (fun held bodyEnds => ?_)
        (fun held => held.2 ∘ live_of_used (held_of_silent_condition silent.1) noticed.1)
        (fun before _ _ held bodyEnds => ?_)
        ⟨settled, fun member => declared (List.mem_filter.mp member).1⟩ ends
      · have confined := confined_of_inFrame effect_of_executeAll bodyEnds
        refine ⟨confined.settled held.1, fun member => ?_⟩
        have outside : name ∉ allNames body := of_decide_eq_true (List.mem_filter.mp member).2
        exact confined.kept name outside (held.2 member)
      · obtain ⟨_, inside, _⟩ := mayEnd_inFrame.mp bodyEnds
        exact known_of_executeAll held.1.push held.2 silent.2 noticed.2 inside
  | .forLoop init condition update body _, scope, live, store, _, _, settled, declared,
      silent, noticed, ends => by
      rw [execute] at ends
      simp only [declarations, List.append_eq_nil_iff] at silent
      simp only [missed, List.mem_append, not_or] at noticed
      rcases silent with ⟨⟨⟨silentInit, silentCondition⟩, silentBody⟩, silentUpdate⟩
      rcases noticed with ⟨⟨⟨noticedInit, noticedCondition⟩, noticedBody⟩, noticedUpdate⟩
      let entry := (lastingIn init live).filter
        fun name => name ∉ allNames body ∧ name ∉ allNames update
      obtain ⟨_, headEnds, _⟩ := mayEnd_inFrame.mp ends
      have atHead : name ∈ live → store.push.isDeclared name := declared
      obtain ⟨head, initEnds, loopEnds⟩ | ⟨_, initEnds⟩ := mayEnd_andThen.mp headEnds
      · have declaredHead : name ∈ lastingIn init live → head.isDeclared name :=
          declared_of_lastingIn atHead initEnds
        refine known_of_repeatWhile
          (fun store => store.Settled ∧ (name ∈ entry → store.isDeclared name))
          (fun held bodyEnds => ?_)
          (fun held => held.2 ∘
            live_of_used (held_of_silent_condition silentCondition) noticedCondition)
          (fun before _ _ held bodyEnds => ?_)
          ⟨(effect_of_executeAll initEnds).settled settled.push,
            fun member => declaredHead (List.mem_filter.mp member).1⟩ loopEnds
        · have confined := confined_of_turn effect_of_executeAll effect_of_executeAll bodyEnds
          refine ⟨confined.settled held.1, fun member => ?_⟩
          obtain ⟨outsideBody, outsideUpdate⟩ :=
            of_decide_eq_true (List.mem_filter.mp member).2
          refine confined.kept name ?_ (held.2 member)
          simp only [allNames, List.mem_append] at outsideBody outsideUpdate ⊢
          grind
        · obtain ⟨_, inside, _⟩ := mayEnd_inFrame.mp bodyEnds
          have atBody : name ∈ entry → before.push.isDeclared name := held.2
          obtain ⟨middle, bodyDone, updateEnds⟩ | ⟨_, bodyDone⟩ := mayEnd_andThen.mp inside
          · exact known_of_executeAll ((effect_of_executeAll bodyDone).settled held.1.push)
              (declared_of_lastingIn atBody bodyDone) silentUpdate noticedUpdate updateEnds
          · exact known_of_executeAll held.1.push atBody silentBody noticedBody bodyDone
      · exact known_of_executeAll settled.push atHead silentInit noticedInit initEnds

/-- So it is through a whole body. -/
theorem known_of_executeAll : ∀ {body : List Instruction} {scope : Scope}
    {live : List String} {store after : Store} {ending : Ending}, store.Settled →
      (name ∈ live → store.isDeclared name) → (declarationsIn body scope).1 = [] →
        name ∉ missedIn body scope live →
          (executeAll limit body store).MayEnd (ending, after) →
            ending ≠ .fails (.unknownVariable name)
  | [], _, _, _, _, _, _, _, _, _, ends => by
      cases ends
      nofun
  | instruction :: rest, scope, live, store, _, _, settled, declared, silent, noticed,
      ends => by
      rw [executeAll] at ends
      rw [declarationsIn, List.append_eq_nil_iff] at silent
      rw [missedIn, List.mem_append, not_or] at noticed
      obtain ⟨middle, headEnds, restEnds⟩ | ⟨_, headEnds⟩ := mayEnd_andThen.mp ends
      · exact known_of_executeAll ((effect_of_execute headEnds).settled settled)
          (declared_of_lasting declared headEnds) silent.2 noticed.2 restEnds
      · exact known_of_execute settled declared silent.1 noticed.1 headEnds

end

end Instruction

/-- A program in which the rule finds nothing and misses no use of a name never stops at
that name as an unknown variable, whatever it is answered and however often its loops
turn. -/
theorem no_unknown_variable_of_silent {σ : Type} (console : Console σ) (limit : Nat)
    (world : σ) (program : Program) (name : String)
    (silent : Check.undefinedVariable program = [])
    (noticed : name ∉ Check.missedNames program) :
    ((Session.start world).runProgram console limit program).1 ≠
      .failed (.stopped (.unknownVariable name)) := by
  have ends := Dialogue.mayEnd_run console (program.execute limit .empty) world
  generalize reached : ((program.execute limit .empty).run console world).1 = result at ends
  rcases result with ⟨ending, after⟩
  have known : ending ≠ .fails (.unknownVariable name) := by
    rw [Program.execute, Dialogue.bind_eq, Dialogue.mayEnd_bind] at ends
    rcases ends with ⟨⟨bodyEnding, last⟩, bodyEnds, flushed⟩
    have bodyKnown := Instruction.known_of_executeAll .empty (by simp) silent noticed bodyEnds
    cases bodyEnding with
    | fails error => cases flushed; exact bodyKnown
    | unfinished => cases flushed; nofun
    | proceeds => obtain ⟨_ | _, same⟩ := flushed <;> cases same <;> nofun
    | exits => obtain ⟨_ | _, same⟩ := flushed <;> cases same <;> nofun
  have outcome : ((Session.start world).runProgram console limit program).1 =
      .ofEnding ending := congrArg (fun result : Ending × Store => Outcome.ofEnding result.1) reached
  rw [outcome]
  intro unknown
  cases ending with
  | fails error => cases unknown; exact known rfl
  | _ => cases unknown

/-! ### Fixed programs -/

private def emptyText : Value :=
  .ofParts [⟨.none, .literal (.string "")⟩]

private def whole (value : Int32) : Value :=
  .ofParts [⟨.none, .literal (.int value)⟩]

private def readX : Value :=
  .ofParts [⟨.none, .variable "x"⟩]

/-- `vXei1ilruetsgostvXei2ilhXlzxl`: every turn declares the name again before it reads
it. -/
def redeclaredInTurns : Program :=
  ⟨[.declare "x" (whole 1) ⟨0, 7⟩,
    .whileLoop
      (.compare (.ofParts [⟨.none, .input⟩]) .equal
        (.ofParts [⟨.none, .literal (.string "go")⟩]))
      [.declare "x" (whole 2) ⟨16, 23⟩, .print readX ⟨23, 26⟩] ⟨7, 27⟩,
    .exit ⟨27, 29⟩], ⟨0, 29⟩⟩

/-- The theorem applies to a loop that removes a variable from outside. -/
theorem no_unknown_variable_in_turns :
    Check.undefinedVariable redeclaredInTurns = [] ∧
      "x" ∉ Check.missedNames redeclaredInTurns ∧
      ((Session.start (Script.ofAnswers ["go", "go"])).runProgram Script.console 3
        redeclaredInTurns).1 ≠ .failed (.stopped (.unknownVariable "x")) :=
  ⟨by decide, by decide,
    no_unknown_variable_of_silent Script.console 3 (Script.ofAnswers ["go", "go"])
      redeclaredInTurns "x" (by decide) (by decide)⟩

/-- `vXei1iljssetsstjssetsstvXei2ilzzhXlxl`: the inner body removes the variable, and the
rule forgets that it did. -/
def removedInside : Program :=
  ⟨[.declare "x" (whole 1) ⟨0, 7⟩,
    .branch (.compare emptyText .equal emptyText)
      [.branch (.compare emptyText .equal emptyText) [.declare "x" (whole 2) ⟨23, 30⟩] none
        ⟨15, 31⟩] none ⟨7, 32⟩,
    .print readX ⟨32, 35⟩, .exit ⟨35, 37⟩], ⟨0, 37⟩⟩

/-- `vXesslrXetsstvXesaslzxl`: the first turn removes the variable that the condition of
the second one reads. -/
def removedByTurn : Program :=
  ⟨[.declare "x" emptyText ⟨0, 6⟩,
    .whileLoop (.compare readX .equal emptyText)
      [.declare "x" (.ofParts [⟨.none, .literal (.string "a")⟩]) ⟨13, 20⟩] ⟨6, 21⟩,
    .exit ⟨21, 23⟩], ⟨0, 23⟩⟩

/-- The silence of the rule alone is no guarantee: both removals that escape it stop a
program in which it finds nothing. -/
theorem silent_programs_meet_unknown_variable :
    (Check.undefinedVariable removedInside = [] ∧
      ((Session.start (Script.ofAnswers [])).runProgram Script.console 1 removedInside).1 =
        .failed (.stopped (.unknownVariable "x"))) ∧
    (Check.undefinedVariable removedByTurn = [] ∧
      ((Session.start (Script.ofAnswers [])).runProgram Script.console 2 removedByTurn).1 =
        .failed (.stopped (.unknownVariable "x"))) :=
  ⟨⟨by decide, rfl⟩, by decide, rfl⟩

end Letterline
