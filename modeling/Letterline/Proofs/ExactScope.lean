/-
Module: Letterline.Proofs.ExactScope
Purpose: Without shadowing, the scopes of the rule on undeclared names hold exactly the
  names that are declared when a run comes to a place.
Trusted boundary: none
Main exports:
  Program.unshadowed, Scope.Agrees, Instruction.InStep, scope_exact_of_unshadowed
-/
import Letterline.Proofs.Effect
import Letterline.Proofs.Place

namespace Letterline

/-!
The rule visits a body once, a run enters it again and again.  They stay in step where
no body declares a name again that a body around it declares: then a body whose frame
is closed has left the names alone that were declared in front of it, in the store and
in the scope, and every turn of a loop begins with the same names as the first.
-/

/-! ### Programs without shadowing -/

namespace Instruction

/-- No name of one list is in the other. -/
def apart (direct inner : List String) : Bool :=
  direct.all (· ∉ inner)

@[simp] theorem apart_iff {direct inner : List String} :
    apart direct inner ↔ ∀ name ∈ direct, name ∉ inner := by
  simp [apart]

mutual

/-- Among the bodies of an instruction, at any depth, none declares a name that a body
inside it declares too.  The body and the update of a `for` run in one frame, inside
that of its head. -/
def unshadowed : Instruction → Bool
  | .exit _ => true
  | .print .. => true
  | .declare .. => true
  | .modify .. => true
  | .branch _ thenBody none _ =>
      apart (directNames thenBody) (innerNamesIn thenBody) && unshadowedIn thenBody
  | .branch _ thenBody (some elseBody) _ =>
      (apart (directNames thenBody) (innerNamesIn thenBody) && unshadowedIn thenBody)
        && (apart (directNames elseBody) (innerNamesIn elseBody) && unshadowedIn elseBody)
  | .whileLoop _ body _ =>
      apart (directNames body) (innerNamesIn body) && unshadowedIn body
  | .forLoop init _ update body _ =>
      (apart (directNames init) (innerNamesIn init ++ (allNames body ++ allNames update))
        && unshadowedIn init)
      && (apart (directNames body ++ directNames update)
          (innerNamesIn body ++ innerNamesIn update)
        && (unshadowedIn body && unshadowedIn update))

/-- So it is for all instructions of a body. -/
def unshadowedIn : List Instruction → Bool
  | [] => true
  | instruction :: rest => unshadowed instruction && unshadowedIn rest

end

end Instruction

/-- No body of a program declares a name that a body inside it declares too. -/
def Program.unshadowed (program : Program) : Bool :=
  Instruction.apart (Instruction.directNames program.instructions)
      (Instruction.innerNamesIn program.instructions)
    && Instruction.unshadowedIn program.instructions

/-! ### What the rule does to a scope -/

namespace Check

open Instruction

variable {scope : Scope} {name : String} {instruction : Instruction}

@[simp] theorem mem_names_forget {removed : List String} :
    name ∈ (scope.forget removed).names ↔ name ∈ scope.names ∧ name ∉ removed := by
  simp [Scope.forget]

@[simp] theorem mem_names_declare {other : String} :
    name ∈ (scope.declare other).names ↔ name = other ∨ name ∈ scope.names := by
  by_cases held : other ∈ scope.names
  · have same : name = other → name ∈ scope.names := fun equal => equal ▸ held
    simpa [Scope.declare, held] using same
  · simp [Scope.declare, held, or_comm]

/-- The top frame gets the names that an instruction declares itself. -/
theorem topNames_declarations
    (owned : name ∈ (declarations instruction scope).2.topNames) :
    name ∈ scope.topNames ∨ instruction.declaredName? = some name := by
  cases instruction with
  | declare other value span =>
      obtain rfl | old := (Store.mem_head_record _).mp owned
      · exact Or.inr rfl
      · exact Or.inl old
  | branch condition thenBody elseBody span => cases elseBody <;> exact Or.inl owned
  | _ => exact Or.inl owned

/-- The top frame gets the names that a body declares itself. -/
theorem topNames_declarationsIn : ∀ (body : List Instruction) {scope : Scope},
    name ∈ (declarationsIn body scope).2.topNames →
      name ∈ scope.topNames ∨ name ∈ directNames body
  | [], _, owned => Or.inl owned
  | instruction :: rest, scope, owned => by
      rw [directNames_cons, List.mem_append, Option.mem_toList]
      rcases topNames_declarationsIn rest owned with atHead | inRest
      · exact (topNames_declarations atHead).imp_right Or.inl
      · exact Or.inr (Or.inr inRest)

/-- Of a body that the rule enters in a new frame, the frame gets no other names. -/
theorem topNames_of_push {body : List Instruction}
    (owned : name ∈ (declarationsIn body scope.push).2.topNames) :
    name ∈ directNames body := by
  rcases topNames_declarationsIn _ owned with old | direct
  · cases old
  · exact direct

/-- An instruction that declares no name itself removes names of its bodies only. -/
theorem exists_forget (scope : Scope) (undeclared : instruction.declaredName? = none) :
    ∃ removed : List String, (∀ name ∈ removed, name ∈ innerNames instruction) ∧
      ∀ name, name ∈ (declarations instruction scope).2.names ↔
        name ∈ scope.names ∧ name ∉ removed := by
  cases instruction with
  | declare => cases undeclared
  | branch condition thenBody elseBody span =>
      cases elseBody with
      | none =>
          refine ⟨_, fun name owned => ?_, fun name => mem_names_forget⟩
          exact List.mem_append_left _ (topNames_of_push owned)
      | some elseBody =>
          refine ⟨_, fun name owned => ?_, fun name => mem_names_forget⟩
          simp only [innerNames, List.mem_append] at owned ⊢
          exact owned.imp (Or.inl ∘ topNames_of_push) (Or.inl ∘ topNames_of_push)
  | whileLoop condition body span =>
      refine ⟨_, fun name owned => ?_, fun name => mem_names_forget⟩
      exact List.mem_append_left _ (topNames_of_push owned)
  | forLoop init condition update body span =>
      refine ⟨_, fun name owned => ?_, fun name => mem_names_forget⟩
      simp only [innerNames, List.mem_append] at owned ⊢
      rcases owned with inTurn | inHead
      · rcases topNames_declarationsIn _ inTurn with inBody | inUpdate
        · exact Or.inr (Or.inl (Or.inl (topNames_of_push inBody)))
        · exact Or.inr (Or.inl (Or.inr inUpdate))
      · exact Or.inl (Or.inl (topNames_of_push inHead))
  | _ => exact ⟨[], by simp, by simp [declarations]⟩

end Check

/-! ### Scopes in step with stores -/

/-- A scope holds exactly the names that are declared in a store. -/
def Scope.Agrees (scope : Scope) (store : Store) : Prop :=
  ∀ name, name ∈ scope.names ↔ store.isDeclared name

namespace Instruction

open Check Execution Store

variable {limit : Nat} {instruction : Instruction} {body rest : List Instruction}
  {store middle after : Store} {scope : Scope} {ending : Ending} {name : String}

/-- What is declared behind an instruction was declared before or by it. -/
theorem declared_of_execute (ends : (execute limit instruction store).MayEnd (ending, after))
    (declared : after.isDeclared name) :
    store.isDeclared name ∨ instruction.declaredName? = some name := by
  cases own : instruction.declaredName? with
  | none => exact Or.inl ((confined_of_execute own ends).added name declared)
  | some other =>
      obtain ⟨value, span, rfl⟩ := exists_of_declaredName own
      rw [execute] at ends
      obtain ⟨scalar, _, done⟩ | ⟨_, _, _, rfl⟩ := mayEnd_given.mp ends
      · cases done
        obtain rfl | old := isDeclared_declare.mp declared
        · exact Or.inr rfl
        · exact Or.inl old
      · exact Or.inl declared

/-- Agreement is kept by an instruction whose bodies declare nothing that is declared in
front of it. -/
theorem agrees_of_execute (agrees : scope.Agrees store)
    (outside : ∀ name, store.isDeclared name → name ∉ innerNames instruction)
    (ends : (execute limit instruction store).MayEnd (.proceeds, after)) :
    (declarations instruction scope).2.Agrees after := by
  intro name
  cases own : instruction.declaredName? with
  | none =>
      have confined : Confined (innerNames instruction) store after :=
        confined_of_execute own ends
      obtain ⟨removed, inner, forgotten⟩ := exists_forget scope own
      rw [forgotten, agrees name]
      constructor
      · intro evidence
        rcases evidence with ⟨declared, _⟩
        exact confined.kept name (outside name declared) declared
      · intro declared
        have before : store.isDeclared name := confined.added name declared
        exact ⟨before, fun member => outside name before (inner name member)⟩
  | some other =>
      obtain ⟨value, span, rfl⟩ := exists_of_declaredName own
      rw [execute] at ends
      obtain ⟨scalar, _, done⟩ | ⟨_, _, failed, _⟩ := mayEnd_given.mp ends
      · cases done
        rw [declarations, mem_names_declare, agrees name, isDeclared_declare]
      · cases failed

/-- A body is about to be run in a store and to be visited in a scope: the two agree,
and neither the body nor what is declared in front of it is shadowed inside it. -/
structure InStep (body : List Instruction) (store : Store) (scope : Scope) : Prop where
  agrees : scope.Agrees store
  outside : ∀ name, store.isDeclared name → name ∉ innerNamesIn body
  direct : ∀ name ∈ directNames body, name ∉ innerNamesIn body
  inner : unshadowedIn body

namespace InStep

/-- The rest of a body is in step where its first instruction proceeds. -/
theorem later (inStep : InStep (instruction :: rest) store scope)
    (ends : (execute limit instruction store).MayEnd (.proceeds, middle)) :
    InStep rest middle (declarations instruction scope).2 := by
  rcases inStep with ⟨agrees, outside, direct, inner⟩
  simp only [innerNamesIn, directNames_cons, List.mem_append, Option.mem_toList,
    not_or] at outside direct
  rw [unshadowedIn, Bool.and_eq_true] at inner
  refine ⟨agrees_of_execute agrees (fun name declared => (outside name declared).1) ends,
    ?_, fun name member => (direct name (Or.inr member)).2, inner.2⟩
  intro name declared
  obtain before | own := declared_of_execute ends declared
  · exact (outside name before).2
  · exact (direct name (Or.inl own)).2

/-- Where a whole body proceeds, the scope behind it agrees with the store, and what is
declared there was declared before or directly in the body. -/
theorem behind : ∀ {body : List Instruction} {store : Store} {scope : Scope},
    InStep body store scope → (executeAll limit body store).MayEnd (.proceeds, after) →
      (declarationsIn body scope).2.Agrees after ∧
        ∀ name, after.isDeclared name → store.isDeclared name ∨ name ∈ directNames body
  | [], _, _, inStep, ends => by
      cases ends
      exact ⟨inStep.agrees, fun name declared => Or.inl declared⟩
  | instruction :: rest, store, scope, inStep, ends => by
      rw [executeAll] at ends
      obtain ⟨middle, headEnds, restEnds⟩ | ⟨stopped, _⟩ := mayEnd_andThen.mp ends
      · obtain ⟨agrees, fromMiddle⟩ := behind (inStep.later headEnds) restEnds
        refine ⟨agrees, fun name declared => ?_⟩
        rw [directNames_cons, List.mem_append, Option.mem_toList]
        obtain atMiddle | inRest := fromMiddle name declared
        · exact (declared_of_execute headEnds atMiddle).imp_right Or.inl
        · exact Or.inr (Or.inr inRest)
      · exact absurd rfl stopped

variable {condition : Condition} {thenBody init update : List Instruction}
  {elseBody : Option (List Instruction)} {span : Span} {head before visited : Store}
  {place : Place}

theorem inThen (inStep : InStep (.branch condition thenBody elseBody span :: rest) store
    scope) : InStep thenBody store.push scope.push := by
  rcases inStep with ⟨agrees, outside, direct, inner⟩
  cases elseBody with
  | none =>
      simp only [innerNamesIn, innerNames, unshadowedIn, unshadowed, List.mem_append, not_or,
        Bool.and_eq_true, apart_iff] at outside inner
      exact ⟨agrees, fun name declared => (outside name declared).1.2, inner.1.1, inner.1.2⟩
  | some elseBody =>
      simp only [innerNamesIn, innerNames, unshadowedIn, unshadowed, List.mem_append, not_or,
        Bool.and_eq_true, apart_iff] at outside inner
      exact ⟨agrees, fun name declared => (outside name declared).1.1.2, inner.1.1.1,
        inner.1.1.2⟩

theorem inElse {elseBody : List Instruction}
    (inStep : InStep (.branch condition thenBody (some elseBody) span :: rest) store scope) :
    InStep elseBody store.push scope.push := by
  rcases inStep with ⟨agrees, outside, direct, inner⟩
  simp only [innerNamesIn, innerNames, unshadowedIn, unshadowed, List.mem_append, not_or,
    Bool.and_eq_true, apart_iff] at outside inner
  exact ⟨agrees, fun name declared => (outside name declared).1.2.2, inner.1.2.1,
    inner.1.2.2⟩

/-- Every turn of a loop begins with the names of the first if the loop declares none of
them. -/
theorem declared_of_turns {body : Execution} {names : List String}
    (confined : ∀ {before after : Store} {ending : Ending},
      (body before).MayEnd (ending, after) → Confined names before after)
    (outside : ∀ name, store.isDeclared name → name ∉ names)
    (turns : Turns condition.evaluate body store before) :
    before.isDeclared name ↔ store.isDeclared name := by
  have soFar : Confined names store before := confined_of_turns confined turns
  constructor
  · exact soFar.added name
  · intro declared
    exact soFar.kept name (outside name declared) declared

/-- So it is in front of every turn of a `while`. -/
theorem whileTurn (inStep : InStep (.whileLoop condition body span :: rest) store scope)
    (turns : Turns condition.evaluate (inFrame (executeAll limit body)) store before) :
    scope.Agrees before ∧ InStep body before.push scope.push := by
  rcases inStep with ⟨agrees, outside, direct, inner⟩
  simp only [innerNamesIn, innerNames, unshadowedIn, unshadowed, List.mem_append, not_or,
    Bool.and_eq_true, apart_iff] at outside inner
  have same : ∀ name, before.isDeclared name ↔ store.isDeclared name := by
    intro name
    refine declared_of_turns (confined_of_inFrame effect_of_executeAll) ?_ turns
    intro name declared
    simpa only [List.mem_append, not_or] using (outside name declared).1
  have agreesBefore : scope.Agrees before := fun name => (agrees name).trans (same name).symm
  refine ⟨agreesBefore, agreesBefore, ?_, inner.1.1, inner.1.2⟩
  intro name declared
  exact (outside name ((same name).mp declared)).1.2

theorem inInit
    (inStep : InStep (.forLoop init condition update body span :: rest) store scope) :
    InStep init store.push scope.push := by
  rcases inStep with ⟨agrees, outside, direct, inner⟩
  simp only [innerNamesIn, innerNames, unshadowedIn, unshadowed, List.mem_append, not_or,
    Bool.and_eq_true, apart_iff] at outside inner
  exact ⟨agrees, fun name declared => (outside name declared).1.1.2,
    fun name member => (inner.1.1.1 name member).1, inner.1.1.2⟩

/-- The scope of the head agrees with the store in front of every turn of a `for`, and
nothing is declared there that a turn declares. -/
theorem forTurn
    (inStep : InStep (.forLoop init condition update body span :: rest) store scope)
    (initEnds : (executeAll limit init store.push).MayEnd (.proceeds, head))
    (turns : Turns condition.evaluate
      (inFrame (andThen (executeAll limit body) (executeAll limit update))) head before) :
    (declarationsIn init scope.push).2.Agrees before ∧
      ∀ name, before.isDeclared name → name ∉ allNames body ∧ name ∉ allNames update := by
  obtain ⟨agreesHead, fromInit⟩ := inStep.inInit.behind initEnds
  rcases inStep with ⟨agrees, outside, direct, inner⟩
  simp only [innerNamesIn, innerNames, unshadowedIn, unshadowed, allNames, List.mem_append,
    not_or, Bool.and_eq_true, apart_iff] at outside inner
  have outsideHead : ∀ name, head.isDeclared name →
      name ∉ allNames body ∧ name ∉ allNames update := by
    intro name declared
    simp only [allNames, List.mem_append, not_or]
    obtain before | own := fromInit name declared
    · obtain ⟨⟨bodyDirect, updateDirect⟩, bodyInner, updateInner⟩ :=
        (outside name before).1.2
      exact ⟨⟨bodyDirect, bodyInner⟩, updateDirect, updateInner⟩
    · exact (inner.1.1.1 name own).2
  have same : ∀ name, before.isDeclared name ↔ head.isDeclared name := by
    intro name
    refine declared_of_turns (confined_of_turn effect_of_executeAll effect_of_executeAll) ?_
      turns
    intro name declared
    obtain ⟨outsideBody, outsideUpdate⟩ := outsideHead name declared
    simp only [allNames, List.mem_append, not_or] at outsideBody outsideUpdate ⊢
    exact ⟨⟨outsideBody.1, outsideUpdate.1⟩, outsideBody.2, outsideUpdate.2⟩
  exact ⟨fun name => (agreesHead name).trans (same name).symm,
    fun name declared => outsideHead name ((same name).mp declared)⟩

theorem forBody
    (inStep : InStep (.forLoop init condition update body span :: rest) store scope)
    (initEnds : (executeAll limit init store.push).MayEnd (.proceeds, head))
    (turns : Turns condition.evaluate
      (inFrame (andThen (executeAll limit body) (executeAll limit update))) head before) :
    InStep body before.push (declarationsIn init scope.push).2.push := by
  obtain ⟨agrees, outside⟩ := inStep.forTurn initEnds turns
  have inner := inStep.inner
  simp only [unshadowedIn, unshadowed, List.mem_append, not_or, Bool.and_eq_true,
    apart_iff] at inner
  simp only [allNames, List.mem_append, not_or] at outside
  exact ⟨agrees, fun name declared => (outside name declared).1.2,
    fun name member => (inner.1.2.1 name (Or.inl member)).1, inner.1.2.2.1⟩

theorem forUpdate
    (inStep : InStep (.forLoop init condition update body span :: rest) store scope)
    (initEnds : (executeAll limit init store.push).MayEnd (.proceeds, head))
    (turns : Turns condition.evaluate
      (inFrame (andThen (executeAll limit body) (executeAll limit update))) head before)
    (bodyEnds : (executeAll limit body before.push).MayEnd (.proceeds, middle)) :
    InStep update middle
      (declarationsIn body (declarationsIn init scope.push).2.push).2 := by
  obtain ⟨agrees, fromBody⟩ := (inStep.forBody initEnds turns).behind bodyEnds
  obtain ⟨_, outside⟩ := inStep.forTurn initEnds turns
  have inner := inStep.inner
  simp only [unshadowedIn, unshadowed, List.mem_append, not_or, Bool.and_eq_true,
    apart_iff] at inner
  simp only [allNames, List.mem_append, not_or] at outside
  refine ⟨agrees, ?_, fun name member => (inner.1.2.1 name (Or.inr member)).2,
    inner.1.2.2.2⟩
  intro name declared
  obtain before | own := fromBody name declared
  · exact (outside name before).2.2
  · exact (inner.1.2.1 name (Or.inl own)).2

end InStep

/-- Wherever a run comes to, the rule has visited the place in a scope that agrees with
the store. -/
theorem agrees_of_reaches {place : Place} {visited : Store}
    (reaches : Reaches limit body store place visited) :
    ∀ {scope : Scope}, InStep body store scope →
      ∃ visit, visit? place body scope = some visit ∧ visit.scope.Agrees visited := by
  induction reaches with
  | start =>
      intro scope inStep
      exact ⟨_, rfl, inStep.agrees⟩
  | later headEnds further inductionHypothesis =>
      intro scope inStep
      exact inductionHypothesis (inStep.later headEnds)
  | inThen truth inside inductionHypothesis =>
      intro scope inStep
      exact inductionHypothesis inStep.inThen
  | inElse falsehood inside inductionHypothesis =>
      intro scope inStep
      exact inductionHypothesis inStep.inElse
  | whileCondition turns =>
      intro scope inStep
      exact ⟨_, rfl, (inStep.whileTurn turns).1⟩
  | whileBody turns truth inside inductionHypothesis =>
      intro scope inStep
      exact inductionHypothesis (inStep.whileTurn turns).2
  | inInit inside inductionHypothesis =>
      intro scope inStep
      exact inductionHypothesis inStep.inInit
  | forCondition initEnds turns =>
      intro scope inStep
      exact ⟨_, rfl, (inStep.forTurn initEnds turns).1⟩
  | forBody initEnds turns truth inside inductionHypothesis =>
      intro scope inStep
      exact inductionHypothesis (inStep.forBody initEnds turns)
  | forUpdate initEnds turns truth bodyEnds inside inductionHypothesis =>
      intro scope inStep
      exact inductionHypothesis (inStep.forUpdate initEnds turns bodyEnds)

end Instruction

/-- In a program without shadowing, a run on an empty store has declared, whenever it
comes to an instruction or to the condition of a loop, exactly the names in the scope
in which the rule has visited that place. -/
theorem scope_exact_of_unshadowed (program : Program) (limit : Nat) (place : Place)
    (visited : Store) (unshadowed : program.unshadowed)
    (reaches : Instruction.Reaches limit program.instructions .empty place visited) :
    ∃ visit, Check.visit? place program.instructions .empty = some visit ∧
      ∀ name, name ∈ visit.scope.names ↔ visited.isDeclared name := by
  rw [Program.unshadowed, Bool.and_eq_true, Instruction.apart_iff] at unshadowed
  have inStep : Instruction.InStep program.instructions .empty .empty :=
    ⟨by simp [Scope.Agrees, Scope.empty], by simp, unshadowed.1, unshadowed.2⟩
  exact Instruction.agrees_of_reaches reaches inStep

private def ofText (contents : String) : Value :=
  .ofParts [⟨.none, .literal (.string contents)⟩]

private def ofName (name : String) : Value :=
  .ofParts [⟨.none, .variable name⟩]

/-- `vIesslruetsgostfvKesslkKetsskKesasltvJeKlzz`: a `for` inside a loop that goes on as
long as the user says so. -/
def nestedLoops : Program :=
  ⟨[.declare "i" (ofText "") ⟨0, 6⟩,
    .whileLoop (.compare (.ofParts [⟨.none, .input⟩]) .equal (ofText "go"))
      [.forLoop [.declare "k" (ofText "") ⟨16, 22⟩]
        (.compare (ofName "k") .equal (ofText ""))
        [.modify "k" (.assign (ofText "a")) ⟨29, 35⟩]
        [.declare "j" (ofName "k") ⟨36, 41⟩] ⟨15, 42⟩] ⟨6, 43⟩], ⟨0, 43⟩⟩

/-- The store in front of the update of the inner loop. -/
def beforeUpdate : Store where
  table := [⟨"i", .ofScalar (.string "")⟩, ⟨"k", .ofScalar (.string "")⟩,
    ⟨"j", .ofScalar (.string "")⟩]
  frames := [["j"], ["k"], [], ["i"]]

/-- The theorem applies to the update of the inner loop in the second turn of the outer
one. -/
theorem scope_exact_in_second_turn :
    nestedLoops.unshadowed ∧
      Instruction.Reaches 2 nestedLoops.instructions .empty
        (.later (.inBody (.inUpdate .start))) beforeUpdate ∧
      ∃ visit,
        Check.visit? (.later (.inBody (.inUpdate .start))) nestedLoops.instructions .empty =
          some visit ∧
        ∀ name, name ∈ visit.scope.names ↔ beforeUpdate.isDeclared name := by
  have unshadowed : nestedLoops.unshadowed := by decide
  have reaches : Instruction.Reaches 2 nestedLoops.instructions .empty
      (.later (.inBody (.inUpdate .start))) beforeUpdate := by
    refine .later rfl (.whileBody (.next .first ⟨.ok "go", rfl⟩ rfl) ⟨.ok "go", rfl⟩ ?_)
    exact .forUpdate rfl .first rfl rfl .start
  exact ⟨unshadowed, reaches, scope_exact_of_unshadowed _ _ _ _ unshadowed reaches⟩

end Letterline
