/-
Module: Letterline.Proofs.Renaming
Purpose: Names have no meaning: a program whose variables are renamed runs, and is checked, as
  it was.
Trusted boundary: none
Main exports:
  Value.renamed, Condition.renamed, Instruction.renamed, Program.renamed, Store.renamed,
  RuntimeError.renamed, Finding.renamed, Program.inStep_renamed,
  Check.undefinedVariable_renamed, Session.renamed_runs_alike
-/
import Letterline.Proofs.Evaluation
import Letterline.Proofs.ParserComplete
import Letterline.Proofs.Simulation
import Mathlib.Data.List.Basic
import Mathlib.Logic.Function.Basic

namespace Letterline

/-!
A name is looked up, recorded and removed by comparing it with other names, and nothing else is
ever done with it but to report it.  So a renaming that keeps different names apart commutes
with every operation on a store and on a scope.  Runs of a program and of the renamed program
keep in step, from a store and from the renamed store, and the check of names finds the same in
both.
-/

/-! ### What is renamed -/

/-- An operand with another name, if it is a variable. -/
def Operand.renamed (rename : String → String) : Operand → Operand
  | .literal scalar => .literal scalar
  | .variable name => .variable (rename name)
  | .input => .input

def Part.renamed (rename : String → String) (part : Part) : Part :=
  { part with operand := part.operand.renamed rename }

def Value.renamed (rename : String → String) (value : Value) : Value :=
  { value with parts := value.parts.map (Part.renamed rename) }

namespace Condition

mutual

def renamed (rename : String → String) : Condition → Condition
  | .compare left comparator right =>
      .compare (left.renamed rename) comparator (right.renamed rename)
  | .chain head rest => .chain (renamed rename head) (renamedLinks rename rest)

def renamedLinks (rename : String → String) :
    List (Connective × Condition) → List (Connective × Condition)
  | [] => []
  | (connective, condition) :: rest =>
      (connective, renamed rename condition) :: renamedLinks rename rest

end

end Condition

def Modification.renamed (rename : String → String) : Modification → Modification
  | .increment => .increment
  | .decrement => .decrement
  | .compound operator value => .compound operator (value.renamed rename)
  | .assign value => .assign (value.renamed rename)

namespace Instruction

mutual

/-- An instruction with every name renamed, at any depth, and the spans that it had. -/
def renamed (rename : String → String) : Instruction → Instruction
  | .exit span => .exit span
  | .print value span => .print (value.renamed rename) span
  | .declare name value span => .declare (rename name) (value.renamed rename) span
  | .modify name modification span =>
      .modify (rename name) (modification.renamed rename) span
  | .branch condition thenBody none span =>
      .branch (condition.renamed rename) (renamedAll rename thenBody) none span
  | .branch condition thenBody (some elseBody) span =>
      .branch (condition.renamed rename) (renamedAll rename thenBody)
        (some (renamedAll rename elseBody)) span
  | .whileLoop condition body span =>
      .whileLoop (condition.renamed rename) (renamedAll rename body) span
  | .forLoop init condition update body span =>
      .forLoop (renamedAll rename init) (condition.renamed rename) (renamedAll rename update)
        (renamedAll rename body) span

def renamedAll (rename : String → String) : List Instruction → List Instruction
  | [] => []
  | instruction :: rest => renamed rename instruction :: renamedAll rename rest

end

end Instruction

def Program.renamed (rename : String → String) (program : Program) : Program :=
  { program with instructions := Instruction.renamedAll rename program.instructions }

def Variable.renamed (rename : String → String) (entry : Variable) : Variable :=
  ⟨rename entry.name, entry.value.renamed rename⟩

def Store.renamed (rename : String → String) (store : Store) : Store :=
  ⟨store.table.map (Variable.renamed rename), store.frames.map (·.map rename)⟩

/-- A fault with the other name, if it reports one. -/
def RuntimeError.renamed (rename : String → String) : RuntimeError → RuntimeError
  | .unknownVariable name => .unknownVariable (rename name)
  | .unevaluatedVariable name => .unevaluatedVariable (rename name)
  | error => error

def Ending.renamed (rename : String → String) : Ending → Ending
  | .fails error => .fails (error.renamed rename)
  | ending => ending

def Scope.renamed (rename : String → String) (scope : Scope) : Scope :=
  ⟨scope.names.map rename, scope.frames.map (·.map rename)⟩

/-- A cause with the other name, if it is about one. -/
def Cause.renamed (rename : String → String) : Cause → Cause
  | .undeclaredRead name => .undeclaredRead (rename name)
  | .undeclaredModification name => .undeclaredModification (rename name)
  | cause => cause

def Finding.renamed (rename : String → String) (finding : Finding) : Finding :=
  { finding with cause := finding.cause.renamed rename }

def Session.renamed {σ : Type} (rename : String → String) (session : Session σ) : Session σ :=
  { session with store := session.store.renamed rename }

variable {rename : String → String}

/-! ### Stores -/

namespace Store

theorem record_renamed (injective : Function.Injective rename) (name : String)
    (frames : List (List String)) :
    record (rename name) (frames.map (·.map rename)) =
      (record name frames).map (·.map rename) := by
  cases frames with
  | nil => rfl
  | cons top rest =>
      by_cases owned : name ∈ top
      · simp [record, owned, List.mem_map_of_injective injective]
      · simp [record, owned, List.mem_map_of_injective injective]

theorem lookup_renamed (injective : Function.Injective rename) (name : String) (store : Store) :
    (store.renamed rename).lookup? (rename name) =
      (store.lookup? name).map (Variable.renamed rename) := by
  have sameName : ((·.name == rename name) ∘ Variable.renamed rename) =
      fun entry : Variable => entry.name == name := by
    funext entry
    rw [Bool.eq_iff_iff]
    simp [Variable.renamed, injective.eq_iff]
  rw [lookup?, renamed, List.find?_map, sameName, lookup?]

theorem isDeclared_renamed (injective : Function.Injective rename) (name : String)
    (store : Store) :
    (store.renamed rename).isDeclared (rename name) = store.isDeclared name := by
  rw [isDeclared, lookup_renamed injective, Option.isSome_map, isDeclared]

theorem replace_renamed (injective : Function.Injective rename) (name : String) (value : Value)
    (table : List Variable) :
    replace (rename name) (value.renamed rename) (table.map (Variable.renamed rename)) =
      (replace name value table).map (Variable.renamed rename) := by
  rw [replace, replace, List.map_map, List.map_map]
  refine List.map_congr_left fun entry _ => ?_
  by_cases same : entry.name = name
  · simp [Variable.renamed, same]
  · simp [Variable.renamed, same, injective.eq_iff]

theorem declare_renamed (injective : Function.Injective rename) (name : String) (value : Value)
    (store : Store) :
    (store.renamed rename).declare (rename name) (value.renamed rename) =
      (store.declare name value).renamed rename := by
  have frames := record_renamed injective name store.frames
  have table : (if store.isDeclared name then
        replace (rename name) (value.renamed rename) (store.renamed rename).table
      else (store.renamed rename).table ++ [⟨rename name, value.renamed rename⟩]) =
      (store.declare name value).table.map (Variable.renamed rename) := by
    rw [declare]
    split
    · exact replace_renamed injective name value store.table
    · rw [List.map_append]
      rfl
  rw [declare, isDeclared_renamed injective]
  exact congr (congrArg Store.mk table) frames

theorem set_renamed (injective : Function.Injective rename) (name : String) (value : Value)
    (store : Store) :
    (store.renamed rename).set (rename name) (value.renamed rename) =
      (store.set name value).renamed rename :=
  congrArg (Store.mk · _) (replace_renamed injective name value store.table)

theorem push_renamed (store : Store) : (store.renamed rename).push = store.push.renamed rename :=
  rfl

theorem pop_renamed (injective : Function.Injective rename) (store : Store) :
    (store.renamed rename).pop = store.pop.renamed rename := by
  rcases store with ⟨table, frames⟩
  cases frames with
  | nil => rfl
  | cons top rest =>
      simp only [pop, renamed, List.map_cons, List.filter_map, Function.comp_def,
        Variable.renamed, List.mem_map_of_injective injective]

end Store

/-! ### Evaluation -/

namespace Value

@[simp] theorem leadingLiteral?_renamed (value : Value) :
    (value.renamed rename).leadingLiteral? = value.leadingLiteral? := by
  rcases value with ⟨_ | ⟨⟨operator, operand⟩, rest⟩, evaluated⟩
  · rfl
  · cases operand <;> rfl

@[simp] theorem scalar?_renamed (value : Value) :
    (value.renamed rename).scalar? = value.scalar? := by
  rw [scalar?, leadingLiteral?_renamed]
  rfl

theorem extend_renamed (value other : Value) (operator : Operator) :
    (value.renamed rename).extend operator (other.renamed rename) =
      (value.extend operator other).renamed rename := by
  rcases other with ⟨_ | ⟨first, rest⟩, evaluated⟩ <;>
    simp [extend, ofParts, renamed, joinedBy, Part.renamed]

end Value

/-- The second fault is the first one, but for the name that it reports. -/
def RuntimeError.Renames (rename : String → String) (error other : RuntimeError) : Prop :=
  other = error.renamed rename

theorem RuntimeError.renames_output (reason : String) :
    Renames rename (.output reason) (.output reason) :=
  rfl

theorem RuntimeError.renamed_of_not_isLookup {error : RuntimeError} (unnamed : ¬ error.isLookup) :
    error.renamed rename = error := by
  cases error with
  | unknownVariable => exact absurd rfl unnamed
  | unevaluatedVariable => exact absurd rfl unnamed
  | _ => rfl

/-- What scalars give depends on no name. -/
theorem Evaluation.inStep_ofExcept {α : Type} {result : Except RuntimeError α}
    (unnamed : ∀ {error}, result = .error error → ¬ error.isLookup) :
    (ofExcept result).run.InStep (Matches (RuntimeError.Renames rename) Eq)
      (ofExcept result).run := by
  refine .done ?_
  cases result with
  | ok result => exact .ok rfl
  | error error => exact .error (RuntimeError.renamed_of_not_isLookup (unnamed rfl)).symm

/-- An operand gives in the renamed store what it gave before. -/
theorem Operand.inStep_renamed (injective : Function.Injective rename) (store : Store)
    (operand : Operand) :
    (operand.resolve store).run.InStep (Evaluation.Matches (RuntimeError.Renames rename) Eq)
      ((operand.renamed rename).resolve (store.renamed rename)).run := by
  cases operand with
  | literal scalar => exact .done (.ok rfl)
  | input =>
      refine .ask fun answer => ?_
      cases answer with
      | ok line => exact .done (.ok rfl)
      | error reason => exact .done (.error rfl)
  | «variable» name =>
      rw [renamed, resolve, resolve, Store.lookup_renamed injective]
      cases store.lookup? name with
      | none => exact .done (.error rfl)
      | some entry =>
          simp only [Option.map_some, Variable.renamed, Value.scalar?_renamed]
          cases entry.value.scalar? with
          | none => exact .done (.error rfl)
          | some scalar => exact .done (.ok rfl)

namespace Value

theorem inStep_fold_renamed (injective : Function.Injective rename) (store : Store)
    (parts : List Part) (accumulated : Option Scalar) :
    (fold store accumulated parts).run.InStep
      (Evaluation.Matches (RuntimeError.Renames rename) Eq)
      (fold (store.renamed rename) accumulated (parts.map (Part.renamed rename))).run := by
  induction parts generalizing accumulated with
  | nil => exact .done (.ok rfl)
  | cons part rest inductionHypothesis =>
      rw [List.map_cons, fold, fold]
      refine Evaluation.inStep_bind (part.operand.inStep_renamed injective store) ?_
      rintro operand _ rfl
      refine Evaluation.inStep_bind
        (Evaluation.inStep_ofExcept fun fails => Scalar.not_isLookup_of_absorb fails) ?_
      rintro joined _ rfl
      exact inductionHypothesis joined

theorem inStep_result_renamed (injective : Function.Injective rename) (store : Store)
    (value : Value) :
    (value.result store).run.InStep (Evaluation.Matches (RuntimeError.Renames rename) Eq)
      ((value.renamed rename).result (store.renamed rename)).run := by
  rw [result, result, leadingLiteral?_renamed]
  by_cases evaluated : value.evaluated
  · rw [if_pos evaluated, if_pos (by exact evaluated)]
    exact .done (.ok rfl)
  · rw [if_neg evaluated, if_neg (by exact evaluated)]
    refine Evaluation.inStep_bind (inStep_fold_renamed injective store value.parts none) ?_
    rintro folded _ rfl
    exact .done (.ok rfl)

/-- An extended value evaluates to the same value, which reads no name. -/
theorem inStep_evaluate_extend_renamed (injective : Function.Injective rename) (store : Store)
    (value other : Value) (operator : Operator) :
    ((value.extend operator other).evaluate store).run.InStep
      (Evaluation.Matches (RuntimeError.Renames rename) fun result renamed =>
        renamed = result.renamed rename)
      (((value.renamed rename).extend operator (other.renamed rename)).evaluate
        (store.renamed rename)).run := by
  rw [extend_renamed, evaluate, evaluate, if_neg (by simp [extend, ofParts]),
    if_neg (by simp [extend, ofParts, renamed])]
  refine Evaluation.inStep_bind (inStep_result_renamed injective store _) ?_
  rintro scalar _ rfl
  exact .done (.ok rfl)

end Value

namespace Condition

mutual

/-- A condition is true of the renamed store if it was true before. -/
theorem inStep_evaluate_renamed (injective : Function.Injective rename) (store : Store) :
    ∀ condition : Condition,
    (condition.evaluate store).run.InStep
      (Evaluation.Matches (RuntimeError.Renames rename) Eq)
      ((condition.renamed rename).evaluate (store.renamed rename)).run
  | .compare left comparator right => by
      rw [renamed, evaluate, evaluate]
      refine Evaluation.inStep_bind (left.inStep_result_renamed injective store) ?_
      rintro leftScalar _ rfl
      refine Evaluation.inStep_bind (right.inStep_result_renamed injective store) ?_
      rintro rightScalar _ rfl
      exact Evaluation.inStep_ofExcept fun fails => Scalar.not_isLookup_of_compare fails
  | .chain head rest => by
      rw [renamed, evaluate, evaluate]
      refine Evaluation.inStep_bind (inStep_evaluate_renamed injective store head) ?_
      rintro truth _ rfl
      exact inStep_evaluateLinks_renamed injective store rest truth

theorem inStep_evaluateLinks_renamed (injective : Function.Injective rename) (store : Store) :
    ∀ (links : List (Connective × Condition)) (truth : Bool),
    (evaluateLinks store truth links).run.InStep
      (Evaluation.Matches (RuntimeError.Renames rename) Eq)
      (evaluateLinks (store.renamed rename) truth (renamedLinks rename links)).run
  | [], truth => by
      rw [renamedLinks, evaluateLinks, evaluateLinks]
      exact .done (.ok rfl)
  | (connective, condition) :: rest, truth => by
      rw [renamedLinks, evaluateLinks, evaluateLinks]
      refine Evaluation.inStep_bind (inStep_evaluate_renamed injective store condition) ?_
      rintro next _ rfl
      exact inStep_evaluateLinks_renamed injective store rest (connective.join truth next)

end

end Condition

theorem Modification.inStep_newValue_renamed (injective : Function.Injective rename)
    (store : Store) (name : String) (modification : Modification) :
    (modification.newValue name store).run.InStep
      (Evaluation.Matches (RuntimeError.Renames rename) fun result renamed =>
        renamed = result.renamed rename)
      ((modification.renamed rename).newValue (rename name) (store.renamed rename)).run := by
  rw [newValue, newValue, Store.lookup_renamed injective]
  cases store.lookup? name with
  | none => exact .done (.error rfl)
  | some entry =>
      cases modification with
      | increment => exact entry.value.inStep_evaluate_extend_renamed injective store .one .plus
      | decrement => exact entry.value.inStep_evaluate_extend_renamed injective store .one .minus
      | compound operator value =>
          exact entry.value.inStep_evaluate_extend_renamed injective store value operator
      | assign value =>
          refine Evaluation.inStep_bind (value.inStep_result_renamed injective store) ?_
          rintro scalar _ rfl
          exact .done (.ok rfl)

/-! ### Runs -/

/-- The second store is the first one renamed. -/
def Store.Renames (rename : String → String) (store other : Store) : Prop :=
  other = store.renamed rename

theorem Store.frameStable_renames (injective : Function.Injective rename) :
    FrameStable (Renames rename) where
  push := by
    rintro store _ rfl
    exact push_renamed store
  pop := by
    rintro store _ rfl
    exact pop_renamed injective store

/-- A value gives the same on stores of which one is the other renamed. -/
theorem Value.inStep_of_renames (injective : Function.Injective rename) (value : Value)
    (store other : Store) (renames : Store.Renames rename store other) :
    (value.result store).run.InStep (Evaluation.Matches (RuntimeError.Renames rename) Eq)
      ((value.renamed rename).result other).run :=
  renames ▸ value.inStep_result_renamed injective store

theorem Condition.inStep_of_renames (injective : Function.Injective rename)
    (condition : Condition) (store other : Store) (renames : Store.Renames rename store other) :
    (condition.evaluate store).run.InStep (Evaluation.Matches (RuntimeError.Renames rename) Eq)
      ((condition.renamed rename).evaluate other).run :=
  renames ▸ condition.inStep_evaluate_renamed injective store

theorem Ending.eq_renamed_of_matches {ending other : Ending}
    (alike : Ending.Matches (RuntimeError.Renames rename) ending other) :
    other = ending.renamed rename := by
  cases alike with
  | fails renames => rw [renames]; rfl
  | _ => rfl

namespace Instruction

variable {limit : Nat}

mutual

/-- A renamed instruction goes in the renamed store as the instruction does. -/
theorem inStep_renamed (injective : Function.Injective rename) : ∀ instruction : Instruction,
    Execution.InStep (RuntimeError.Renames rename) (Store.Renames rename)
      (execute limit instruction) (execute limit (instruction.renamed rename))
  | .exit _ => .still .exits
  | .print value _ => by
      rw [renamed, execute, execute]
      refine .given (value.inStep_of_renames injective) ?_
      rintro scalar _ rfl
      exact .print RuntimeError.renames_output scalar.text
  | .declare name value _ => by
      rw [renamed, execute, execute]
      refine .given (value.inStep_of_renames injective) ?_
      rintro scalar _ rfl
      refine .change ?_
      rintro store _ rfl
      exact store.declare_renamed injective name (.ofScalar scalar)
  | .modify name modification _ => by
      rw [renamed, execute, execute]
      refine .given (fun store _ renames =>
        renames ▸ modification.inStep_newValue_renamed injective store name) ?_
      rintro value _ rfl
      refine .change ?_
      rintro store _ rfl
      exact store.set_renamed injective name value
  | .branch condition thenBody none _ => by
      rw [renamed, execute, execute]
      refine .inFrame (Store.frameStable_renames injective)
        (.given (condition.inStep_of_renames injective) ?_)
      rintro truth _ rfl
      cases truth with
      | true => exact inStep_renamedAll injective thenBody
      | false => exact .still .proceeds
  | .branch condition thenBody (some elseBody) _ => by
      rw [renamed, execute, execute]
      refine .inFrame (Store.frameStable_renames injective)
        (.given (condition.inStep_of_renames injective) ?_)
      rintro truth _ rfl
      cases truth with
      | true => exact inStep_renamedAll injective thenBody
      | false => exact inStep_renamedAll injective elseBody
  | .whileLoop condition body _ => by
      rw [renamed, execute, execute]
      exact .repeatWhile (condition.inStep_of_renames injective)
        (.inFrame (Store.frameStable_renames injective) (inStep_renamedAll injective body)) limit
  | .forLoop init condition update body _ => by
      rw [renamed, execute, execute]
      exact .inFrame (Store.frameStable_renames injective)
        (.andThen (inStep_renamedAll injective init)
          (.repeatWhile (condition.inStep_of_renames injective)
            (.inFrame (Store.frameStable_renames injective)
              (.andThen (inStep_renamedAll injective body) (inStep_renamedAll injective update)))
            limit))

/-- So do renamed instructions in a row. -/
theorem inStep_renamedAll (injective : Function.Injective rename) : ∀ body : List Instruction,
    Execution.InStep (RuntimeError.Renames rename) (Store.Renames rename)
      (executeAll limit body) (executeAll limit (renamedAll rename body))
  | [] => .still .proceeds
  | instruction :: rest => by
      rw [renamedAll, executeAll, executeAll]
      exact .andThen (inStep_renamed injective instruction) (inStep_renamedAll injective rest)

end

end Instruction

/-- So does a renamed program. -/
theorem Program.inStep_renamed {limit : Nat} (injective : Function.Injective rename)
    (program : Program) :
    Execution.InStep (RuntimeError.Renames rename) (Store.Renames rename)
      (program.execute limit) ((program.renamed rename).execute limit) :=
  inStep_execute RuntimeError.renames_output
    (Instruction.inStep_renamedAll injective program.instructions)

/-! ### What the check finds -/

namespace Scope

theorem declare_renamed (injective : Function.Injective rename) (name : String)
    (scope : Scope) :
    (scope.renamed rename).declare (rename name) = (scope.declare name).renamed rename := by
  have frames := Store.record_renamed injective name scope.frames
  have names : (if rename name ∈ scope.names.map rename then scope.names.map rename
      else scope.names.map rename ++ [rename name]) = (scope.declare name).names.map rename := by
    simp only [declare, List.mem_map_of_injective injective]
    split
    · rfl
    · rw [List.map_append]
      rfl
  rw [declare]
  exact congr (congrArg Scope.mk names) frames

theorem push_renamed (scope : Scope) : (scope.renamed rename).push = scope.push.renamed rename :=
  rfl

theorem topNames_renamed (scope : Scope) :
    (scope.renamed rename).topNames = scope.topNames.map rename := by
  rcases scope with ⟨names, _ | ⟨top, rest⟩⟩ <;> rfl

theorem forget_renamed (injective : Function.Injective rename) (removed : List String)
    (scope : Scope) :
    (scope.renamed rename).forget (removed.map rename) =
      (scope.forget removed).renamed rename := by
  simp only [forget, renamed, List.filter_map, Function.comp_def,
    List.mem_map_of_injective injective]

end Scope

theorem Value.namesRead_renamed (value : Value) :
    (value.renamed rename).namesRead = value.namesRead.map rename := by
  rw [namesRead, renamed, List.filterMap_map, namesRead, List.map_filterMap]
  refine List.filterMap_congr fun part _ => ?_
  rcases part with ⟨operator, operand⟩
  cases operand <;> rfl

namespace Condition

mutual

theorem values_renamed : ∀ condition : Condition,
    (condition.renamed rename).values = condition.values.map (Value.renamed rename)
  | .compare left comparator right => by rw [renamed, values, values, List.map, List.map, List.map]
  | .chain head rest => by
      rw [renamed, values, values, values_renamed head, linkValues_renamed rest, List.map_append]

theorem linkValues_renamed : ∀ links : List (Connective × Condition),
    linkValues (renamedLinks rename links) = (linkValues links).map (Value.renamed rename)
  | [] => by rw [renamedLinks, linkValues, List.map_nil]
  | (connective, condition) :: rest => by
      rw [renamedLinks, linkValues, linkValues, values_renamed condition, linkValues_renamed rest,
        List.map_append]

end

end Condition

namespace Check

theorem undeclaredIn_renamed (injective : Function.Injective rename) (scope : Scope)
    (span : Span) (value : Value) :
    undeclaredIn (scope.renamed rename) span (value.renamed rename) =
      (undeclaredIn scope span value).map (Finding.renamed rename) := by
  simp only [undeclaredIn, Value.namesRead_renamed, Scope.renamed, List.filter_map, List.map_map,
    Function.comp_def, List.mem_map_of_injective injective]
  rfl

theorem undeclaredInCondition_renamed (injective : Function.Injective rename) (scope : Scope)
    (span : Span) (condition : Condition) :
    undeclaredInCondition (scope.renamed rename) span (condition.renamed rename) =
      (undeclaredInCondition scope span condition).map (Finding.renamed rename) := by
  rw [undeclaredInCondition, undeclaredInCondition, Condition.values_renamed, List.flatMap_map,
    List.map_flatMap]
  exact congrArg (List.flatMap · _) (funext fun value =>
    undeclaredIn_renamed injective scope span value)

theorem undeclaredInModification_renamed (injective : Function.Injective rename) (scope : Scope)
    (span : Span) (name : String) (modification : Modification) :
    undeclaredInModification (scope.renamed rename) span (rename name)
        (modification.renamed rename) =
      (undeclaredInModification scope span name modification).map (Finding.renamed rename) := by
  have target : (if rename name ∈ (scope.renamed rename).names then []
        else [⟨span, .undeclaredModification (rename name)⟩]) =
      (if name ∈ scope.names then [] else [⟨span, .undeclaredModification name⟩]).map
        (Finding.renamed rename) := by
    simp only [Scope.renamed, List.mem_map_of_injective injective]
    split <;> rfl
  cases modification with
  | increment => simp only [Modification.renamed, undeclaredInModification, target, List.append_nil]
  | decrement => simp only [Modification.renamed, undeclaredInModification, target, List.append_nil]
  | compound operator value =>
      simp only [Modification.renamed, undeclaredInModification, target, List.map_append,
        undeclaredIn_renamed injective]
  | assign value =>
      simp only [Modification.renamed, undeclaredInModification, target, List.map_append,
        undeclaredIn_renamed injective]

open Instruction

mutual

/-- In a renamed instruction the check finds what it finds in the instruction, and it leaves the
renamed scope. -/
theorem declarations_renamed (injective : Function.Injective rename) :
    ∀ (instruction : Instruction) (scope : Scope),
      declarations (instruction.renamed rename) (scope.renamed rename) =
        ((declarations instruction scope).1.map (Finding.renamed rename),
          (declarations instruction scope).2.renamed rename)
  | .exit _, _ => by
      rw [renamed, declarations, declarations]
      rfl
  | .print value span, scope => by
      rw [renamed, declarations, declarations, undeclaredIn_renamed injective]
  | .declare name value span, scope => by
      rw [renamed, declarations, declarations, undeclaredIn_renamed injective,
        Scope.declare_renamed injective]
  | .modify name modification span, scope => by
      rw [renamed, declarations, declarations, undeclaredInModification_renamed injective]
  | .branch condition thenBody none span, scope => by
      simp only [renamed, declarations, Scope.push_renamed, Scope.topNames_renamed,
        declarationsIn_renamed injective thenBody, undeclaredInCondition_renamed injective,
        Scope.forget_renamed injective, List.map_append]
  | .branch condition thenBody (some elseBody) span, scope => by
      simp only [renamed, declarations, Scope.push_renamed, Scope.topNames_renamed,
        declarationsIn_renamed injective thenBody, declarationsIn_renamed injective elseBody,
        undeclaredInCondition_renamed injective, ← List.map_append,
        Scope.forget_renamed injective]
  | .whileLoop condition body span, scope => by
      simp only [renamed, declarations, Scope.push_renamed, Scope.topNames_renamed,
        declarationsIn_renamed injective body, undeclaredInCondition_renamed injective,
        Scope.forget_renamed injective, List.map_append]
  | .forLoop init condition update body span, scope => by
      simp only [renamed, declarations, Scope.push_renamed, Scope.topNames_renamed,
        declarationsIn_renamed injective init, declarationsIn_renamed injective body,
        declarationsIn_renamed injective update, undeclaredInCondition_renamed injective,
        ← List.map_append, Scope.forget_renamed injective]

/-- So it is for instructions in a row. -/
theorem declarationsIn_renamed (injective : Function.Injective rename) :
    ∀ (body : List Instruction) (scope : Scope),
      declarationsIn (renamedAll rename body) (scope.renamed rename) =
        ((declarationsIn body scope).1.map (Finding.renamed rename),
          (declarationsIn body scope).2.renamed rename)
  | [], _ => by
      rw [renamedAll, declarationsIn, declarationsIn]
      rfl
  | instruction :: rest, scope => by
      simp only [renamedAll, declarationsIn, declarations_renamed injective instruction,
        declarationsIn_renamed injective rest, List.map_append]

end

/-- In a renamed program the check finds the same, at the same places, about the renamed
names. -/
theorem undefinedVariable_renamed (injective : Function.Injective rename) (program : Program) :
    undefinedVariable (program.renamed rename) =
      (undefinedVariable program).map (Finding.renamed rename) :=
  congrArg Prod.fst (declarationsIn_renamed injective program.instructions .empty)

end Check

/-! ### Sessions -/

namespace Session

variable {σ : Type}

/-- Variables can be renamed as long as different names stay different.  The renamed program,
run from the renamed store on the same console, passes the same exchanges under every limit.  It
goes on for ever if the program does, and otherwise it ends in the same way, but for the name
that a fault reports, with the console in the same state and with the renamed store.  The check
of names finds the same at the same places, about the renamed names. -/
theorem renamed_runs_alike (console : Console σ) {rename : String → String}
    (injective : Function.Injective rename) (program : Program) (session : Session σ) :
    (∀ limit, (session.renamed rename).exchanges console ((program.renamed rename).execute limit) =
      session.exchanges console (program.execute limit)) ∧
    ((session.Diverges console (program.execute ·) ∧
        (session.renamed rename).Diverges console ((program.renamed rename).execute ·)) ∨
      ∃ ending after record,
        session.Ends console (program.execute ·) ending after record ∧
        (session.renamed rename).Ends console ((program.renamed rename).execute ·)
          (ending.renamed rename) (after.renamed rename) record) ∧
    Check.undefinedVariable (program.renamed rename) =
      (Check.undefinedVariable program).map (Finding.renamed rename) := by
  have beside : session.Beside (Store.Renames rename) (session.renamed rename) := ⟨rfl, rfl⟩
  refine ⟨fun limit => (hold_inStep (program.inStep_renamed injective) beside).2.2.symm, ?_,
    Check.undefinedVariable_renamed injective program⟩
  obtain diverge | ⟨ending, otherEnding, after, ⟨otherStore, otherWorld⟩, record, ends, otherEnds,
      endings, reached⟩ := keeps_in_step (fun le => program.agrees_execute le)
        (fun le => (program.renamed rename).agrees_execute le)
        (fun _ => program.inStep_renamed injective) beside
  · exact Or.inl diverge
  · obtain ⟨rfl, rfl⟩ := reached
    rw [Ending.eq_renamed_of_matches endings] at otherEnds
    exact Or.inr ⟨ending, after, record, ends, otherEnds⟩

/-- A session with a variable `y` and one answer. -/
def holdingY : Session Script :=
  ⟨⟨[⟨"y", .ofScalar (.int 5)⟩], [["y"]]⟩, .ofAnswers ["1"]⟩

/-- A program that counts, prints what it adds to a variable that was there before, and stops
at a name that it has not declared.  Here every name gets one more character. -/
theorem counting_under_other_names :
    ∃ program, Program.parse "vXeulrXlti3ithXpYlXpplzhZlxl" = .ok program ∧
      Function.Injective (· ++ "1") ∧
      (∃ after record,
        holdingY.Ends Script.console (program.execute ·) (.fails (.unknownVariable "z")) after
          record ∧
        (holdingY.renamed (· ++ "1")).Ends Script.console
          ((program.renamed (· ++ "1")).execute ·) (.fails (.unknownVariable "z1"))
          (after.renamed (· ++ "1")) record) ∧
      Check.undefinedVariable (program.renamed (· ++ "1")) =
        [⟨⟨13, 18⟩, .undeclaredRead "y1"⟩, ⟨⟨23, 26⟩, .undeclaredRead "z1"⟩] := by
  obtain ⟨program, parsed, passes⟩ := Program.exists_parse_of_any "vXeulrXlti3ithXpYlXpplzhZlxl"
    (fun program =>
      (holdingY.hold Script.console (program.execute 3)).1 = .fails (.unknownVariable "z") ∧
      Check.undefinedVariable program =
        [⟨⟨13, 18⟩, .undeclaredRead "y"⟩, ⟨⟨23, 26⟩, .undeclaredRead "z"⟩]) (by decide +kernel)
  obtain ⟨fails, found⟩ := of_decide_eq_true passes
  have injective : Function.Injective (· ++ "1") := fun first second same =>
    (String.append_left_inj "1").mp same
  have finished : (holdingY.hold Script.console (program.execute 3)).1 ≠ .unfinished := by
    rw [fails]
    nofun
  have reached := ends_of_finished (fun le => program.agrees_execute le) finished
  obtain ⟨-, diverge | ⟨ending, after, record, ends, otherEnds⟩, foundRenamed⟩ :=
    renamed_runs_alike Script.console injective program holdingY
  · exact absurd (diverge.1 3) finished
  · obtain ⟨rfl, -, -⟩ := ends.unique reached
    rw [fails] at ends otherEnds
    rw [found] at foundRenamed
    exact ⟨program, parsed, injective, ⟨after, record, ends, otherEnds⟩, foundRenamed⟩

end Session

end Letterline
