/-
Module: Letterline.Proofs.Evaluation
Purpose: Which faults evaluation can have, and what an evaluated value is.
Trusted boundary: none
Main exports:
  Evaluation.mayEnd_bind, Evaluation.outcome, Store.lookupFault?, Value.lookup_of_result,
  Condition.lookup_of_evaluate, Modification.lookup_of_newValue,
  Value.undeclared_of_result, Condition.undeclared_of_evaluate,
  Modification.undeclared_of_newValue, Modification.newValue_settled
-/
import Letterline.Program.Execution
import Letterline.Proofs.Dialogue
import Letterline.Proofs.Store

namespace Letterline

/-!
An unknown variable, or one that has not been evaluated, is reported in one place only:
where an operand or the target of a modification is looked up.  So every such report
names something that the evaluated text reads and that the store does not hold, or not
with a scalar.
-/

namespace Evaluation

variable {α β : Type}

@[simp] theorem mayEnd_pure {result : α} {outcome : Except RuntimeError α} :
    (pure result : Evaluation α).run.MayEnd outcome ↔ outcome = .ok result :=
  Iff.rfl

@[simp] theorem mayEnd_throw {error : RuntimeError} {outcome : Except RuntimeError α} :
    (throw error : Evaluation α).run.MayEnd outcome ↔ outcome = .error error :=
  Iff.rfl

@[simp] theorem mayEnd_ofExcept {result outcome : Except RuntimeError α} :
    (ofExcept result).run.MayEnd outcome ↔ outcome = result :=
  Iff.rfl

/-- A request has an answer, or fails for a reason of the console. -/
@[simp] theorem mayEnd_ask {outcome : Except RuntimeError String} :
    ask.run.MayEnd outcome ↔ ∃ answer : Except String String, outcome = answer.mapError .input :=
  Iff.rfl

/-- A fault of the first part is one of the whole. -/
@[simp] theorem mayEnd_bind {first : Evaluation α} {second : α → Evaluation β}
    {outcome : Except RuntimeError β} :
    (first >>= second).run.MayEnd outcome ↔
      (∃ result, first.run.MayEnd (.ok result) ∧ (second result).run.MayEnd outcome) ∨
      (∃ error, first.run.MayEnd (.error error) ∧ outcome = .error error) := by
  rw [ExceptT.run_bind, Dialogue.bind_eq, Dialogue.mayEnd_bind]
  constructor
  · intro evidence
    rcases evidence with ⟨middle, ends, rest⟩
    cases middle with
    | ok result => exact Or.inl ⟨result, ends, rest⟩
    | error error => exact Or.inr ⟨error, ends, rest⟩
  · rintro (⟨result, ends, rest⟩ | ⟨error, ends, rest⟩)
    · exact ⟨.ok result, ends, rest⟩
    · exact ⟨.error error, ends, rest⟩

/-! ### Evaluations on a console -/

section OnConsole

variable {σ : Type} {console : Console σ} {state after : σ}

/-- What an evaluation comes to on a console. -/
def outcome (console : Console σ) (evaluation : Evaluation α) (state : σ) :
    Except RuntimeError α :=
  (evaluation.run.run console state).1

theorem outcome_bind_of_ok {first : Evaluation α} {second : α → Evaluation β} {result : α}
    (ran : first.run.run console state = (.ok result, after)) :
    (first >>= second).outcome console state = (second result).outcome console after := by
  rw [outcome, ExceptT.run_bind, Dialogue.bind_eq, Dialogue.run_bind, ran]
  rfl

theorem outcome_bind_of_error {first : Evaluation α} {second : α → Evaluation β}
    {error : RuntimeError} (ran : first.run.run console state = (.error error, after)) :
    (first >>= second).outcome console state = .error error := by
  rw [outcome, ExceptT.run_bind, Dialogue.bind_eq, Dialogue.run_bind, ran]
  rfl

theorem outcome_map (evaluation : Evaluation α) (f : α → β) :
    (evaluation >>= fun result => pure (f result)).outcome console state =
      (evaluation.outcome console state).map f := by
  rcases ran : evaluation.run.run console state with ⟨error | result, after⟩
  · rw [outcome_bind_of_error ran, outcome, ran]
    rfl
  · rw [outcome_bind_of_ok ran, outcome, outcome, ran]
    rfl

end OnConsole

end Evaluation

/-! ### Faults of computed values -/

/-- A fault that looking a name up reports. -/
def RuntimeError.isLookup : RuntimeError → Bool
  | .unknownVariable _ => true
  | .unevaluatedVariable _ => true
  | _ => false

namespace Scalar

variable {error : RuntimeError}

theorem not_isLookup_of_ofCodepoint {codepoint : Int32}
    (fails : ofCodepoint codepoint = .error error) : ¬ error.isLookup := by
  rw [ofCodepoint] at fails
  by_cases valid : 0 ≤ codepoint.toInt ∧ codepoint.toInt.toNat.isValidChar
  · rw [dif_pos valid] at fails
    cases fails
  · rw [dif_neg valid] at fails
    cases fails
    nofun

theorem not_isLookup_of_concatenate {left right : Scalar} {operator : Operator}
    (fails : left.concatenate right operator = .error error) : ¬ error.isLookup := by
  rw [concatenate] at fails
  split at fails <;> cases fails
  nofun

theorem not_isLookup_of_combine {left right : Scalar} {operator : Operator}
    (fails : left.combine right operator = .error error) : ¬ error.isLookup := by
  unfold combine at fails
  split at fails
  all_goals
    first
    | exact not_isLookup_of_ofCodepoint fails
    | exact not_isLookup_of_concatenate fails
    | cases fails <;> nofun

theorem not_isLookup_of_absorb {accumulated operand : Option Scalar} {operator : Operator}
    (fails : absorb accumulated operand operator = .error error) : ¬ error.isLookup := by
  unfold absorb at fails
  split at fails
  · cases fails
  · split at fails <;> cases fails
    nofun
  · cases fails
  · next left right =>
      cases combined : left.combine right operator with
      | ok result => rw [combined] at fails; cases fails
      | error combinedError =>
          rw [combined] at fails
          cases fails
          exact not_isLookup_of_combine combined

theorem not_isLookup_of_compare {left right : Scalar} {comparator : Comparator}
    (fails : left.compare comparator right = .error error) : ¬ error.isLookup := by
  unfold compare at fails
  split at fails
  · cases fails
    nofun
  · split at fails
    · split at fails <;> cases fails
      nofun
    · split at fails <;> cases fails
      nofun

end Scalar

/-! ### Names that are looked up -/

variable {store : Store} {name : String} {error : RuntimeError}

/-- What looking a name up reports if it gives no scalar. -/
def Store.lookupFault? (name : String) (store : Store) : Option RuntimeError :=
  match store.lookup? name with
  | none => some (.unknownVariable name)
  | some entry =>
      match entry.value.scalar? with
      | none => some (.unevaluatedVariable name)
      | some _ => none

/-- A name is unknown only if it is not declared. -/
theorem Store.undeclared_of_lookupFault {read : String}
    (fault : store.lookupFault? read = some (.unknownVariable name)) :
    read = name ∧ ¬ store.isDeclared name := by
  rw [lookupFault?] at fault
  split at fault
  · next missing =>
      cases fault
      exact ⟨rfl, lookup_eq_none.mp missing⟩
  · split at fault <;> cases fault

/-- In a settled store every variable is evaluated. -/
theorem Store.Settled.lookupFault_ne (settled : store.Settled) (read : String) :
    store.lookupFault? read ≠ some (.unevaluatedVariable name) := by
  intro fault
  rw [lookupFault?] at fault
  split at fault
  · cases fault
  · next entry found =>
      obtain ⟨scalar, current⟩ := settled entry (List.mem_of_find?_eq_some found)
      rw [current] at fault
      cases fault

theorem Operand.lookup_of_resolve {operand : Operand} (lookup : error.isLookup)
    (fails : (operand.resolve store).run.MayEnd (.error error)) :
    ∃ name, operand = .variable name ∧ store.lookupFault? name = some error := by
  cases operand with
  | literal scalar => cases fails
  | input =>
      simp only [Operand.resolve, Evaluation.mayEnd_bind, Evaluation.mayEnd_ask,
        Evaluation.mayEnd_pure] at fails
      rcases fails with ⟨_, _, impossible⟩ | ⟨asked, ⟨answer, answered⟩, same⟩
      · cases impossible
      · cases same
        cases answer <;> cases answered
        cases lookup
  | «variable» read =>
      refine ⟨read, rfl, ?_⟩
      rw [Operand.resolve] at fails
      rw [Store.lookupFault?]
      cases found : store.lookup? read with
      | none =>
          rw [found] at fails
          cases fails
          rfl
      | some entry =>
          cases evaluated : entry.value.scalar? with
          | none =>
              simp only [found, evaluated] at fails
              cases fails
              simp only [evaluated]
          | some scalar =>
              simp only [found, evaluated] at fails
              cases fails

namespace Value

theorem mem_namesRead {value : Value} :
    name ∈ value.namesRead ↔ ∃ part ∈ value.parts, part.operand = .variable name := by
  simp only [namesRead, List.mem_filterMap]
  constructor
  · intro evidence
    rcases evidence with ⟨part, member, same⟩
    split at same
    · next read => exact ⟨part, member, by rw [read, Option.some.inj same]⟩
    · cases same
  · intro evidence
    rcases evidence with ⟨part, member, read⟩
    exact ⟨part, member, by rw [read]⟩

theorem lookup_of_fold {parts : List Part} (lookup : error.isLookup) :
    ∀ {accumulated : Option Scalar}, (fold store accumulated parts).run.MayEnd (.error error) →
      ∃ part ∈ parts, ∃ name, part.operand = .variable name ∧
        store.lookupFault? name = some error := by
  induction parts with
  | nil => intro accumulated fails; cases fails
  | cons part rest inductionHypothesis =>
      intro accumulated fails
      simp only [fold, Evaluation.mayEnd_bind, Evaluation.mayEnd_ofExcept] at fails
      obtain ⟨operand, _, ⟨joined, _, failsLater⟩ | ⟨failed, absorbed, same⟩⟩ |
        ⟨failed, failsHere, same⟩ := fails
      · obtain ⟨other, member, found⟩ := inductionHypothesis failsLater
        exact ⟨other, List.mem_cons_of_mem _ member, found⟩
      · cases same
        exact False.elim (Scalar.not_isLookup_of_absorb absorbed.symm lookup)
      · cases same
        exact ⟨part, List.mem_cons_self, Operand.lookup_of_resolve lookup failsHere⟩

/-- A value looks up only names that it reads. -/
theorem lookup_of_result {value : Value} (lookup : error.isLookup)
    (fails : (value.result store).run.MayEnd (.error error)) :
    ∃ name ∈ value.namesRead, store.lookupFault? name = some error := by
  rw [result] at fails
  split at fails
  · cases fails
  · simp only [Evaluation.mayEnd_bind, Evaluation.mayEnd_pure] at fails
    rcases fails with ⟨_, _, impossible⟩ | ⟨failed, failsInside, same⟩
    · cases impossible
    · cases same
      obtain ⟨part, member, name, read, fault⟩ := lookup_of_fold lookup failsInside
      exact ⟨name, mem_namesRead.mpr ⟨part, member, read⟩, fault⟩

/-- A value reports only names that it reads and that are not declared. -/
theorem undeclared_of_result {value : Value}
    (fails : (value.result store).run.MayEnd (.error (.unknownVariable name))) :
    name ∈ value.namesRead ∧ ¬ store.isDeclared name := by
  obtain ⟨read, member, fault⟩ := lookup_of_result rfl fails
  obtain ⟨rfl, undeclared⟩ := Store.undeclared_of_lookupFault fault
  exact ⟨member, undeclared⟩

/-- The result of evaluating a chain is an evaluated scalar. -/
theorem evaluate_extend {value other result : Value} {operator : Operator}
    (ends : ((value.extend operator other).evaluate store).run.MayEnd (.ok result)) :
    ∃ scalar, result = .ofScalar scalar := by
  rw [evaluate, if_neg (by simp [extend, ofParts])] at ends
  simp only [Evaluation.mayEnd_bind, Evaluation.mayEnd_pure] at ends
  rcases ends with ⟨scalar, _, same⟩ | ⟨_, _, impossible⟩
  · exact ⟨scalar, Except.ok.inj same⟩
  · cases impossible

/-- Extending the value of a scalar reads the names of the other value only. -/
theorem mem_namesRead_of_extend {scalar : Scalar} {other : Value} {operator : Operator}
    (member : name ∈ ((ofScalar scalar).extend operator other).namesRead) :
    name ∈ other.namesRead := by
  obtain ⟨part, partMember, read⟩ := mem_namesRead.mp member
  rw [mem_namesRead]
  rcases other with ⟨parts, evaluated⟩
  cases parts with
  | nil =>
      simp only [extend, ofParts, ofScalar, joinedBy, List.append_nil,
        List.mem_singleton] at partMember
      rw [partMember] at read
      cases read
  | cons first rest =>
      simp only [extend, ofParts, ofScalar, joinedBy, List.mem_append, List.mem_cons,
        List.not_mem_nil, or_false] at partMember
      rcases partMember with rfl | rfl | later
      · cases read
      · exact ⟨first, List.mem_cons_self, read⟩
      · exact ⟨part, List.mem_cons_of_mem _ later, read⟩

theorem lookup_of_evaluate_extend {scalar : Scalar} {other : Value} {operator : Operator}
    (lookup : error.isLookup)
    (fails : (((ofScalar scalar).extend operator other).evaluate store).run.MayEnd
      (.error error)) :
    ∃ name ∈ other.namesRead, store.lookupFault? name = some error := by
  rw [evaluate, if_neg (by simp [extend, ofParts])] at fails
  simp only [Evaluation.mayEnd_bind, Evaluation.mayEnd_pure] at fails
  rcases fails with ⟨_, _, impossible⟩ | ⟨failed, failsInside, same⟩
  · cases impossible
  · cases same
    obtain ⟨name, member, fault⟩ := lookup_of_result lookup failsInside
    exact ⟨name, mem_namesRead_of_extend member, fault⟩

end Value

namespace Condition

mutual

/-- A condition looks up only names that one of its values reads. -/
theorem lookup_of_evaluate (lookup : error.isLookup) : ∀ {condition : Condition},
    (condition.evaluate store).run.MayEnd (.error error) →
      ∃ value ∈ condition.values, ∃ name ∈ value.namesRead,
        store.lookupFault? name = some error
  | .compare left comparator right, fails => by
      simp only [evaluate, Evaluation.mayEnd_bind, Evaluation.mayEnd_ofExcept] at fails
      rcases fails with ⟨_, _, ⟨_, _, compared⟩ | ⟨_, failsRight, same⟩⟩ | ⟨_, failsLeft, same⟩
      · exact False.elim (Scalar.not_isLookup_of_compare compared.symm lookup)
      · cases same
        exact ⟨right, by simp [values], Value.lookup_of_result lookup failsRight⟩
      · cases same
        exact ⟨left, by simp [values], Value.lookup_of_result lookup failsLeft⟩
  | .chain head rest, fails => by
      simp only [evaluate, Evaluation.mayEnd_bind] at fails
      rcases fails with ⟨_, _, failsLater⟩ | ⟨_, failsHere, same⟩
      · obtain ⟨value, member, found⟩ := lookup_of_evaluateLinks lookup failsLater
        exact ⟨value, by simp [values, member], found⟩
      · cases same
        obtain ⟨value, member, found⟩ := lookup_of_evaluate lookup failsHere
        exact ⟨value, by simp [values, member], found⟩

/-- So do the further members of a chain. -/
theorem lookup_of_evaluateLinks (lookup : error.isLookup) :
    ∀ {links : List (Connective × Condition)} {truth : Bool},
    (evaluateLinks store truth links).run.MayEnd (.error error) →
      ∃ value ∈ linkValues links, ∃ name ∈ value.namesRead,
        store.lookupFault? name = some error
  | [], _, fails => by cases fails
  | (connective, condition) :: rest, truth, fails => by
      simp only [evaluateLinks, Evaluation.mayEnd_bind] at fails
      rcases fails with ⟨_, _, failsLater⟩ | ⟨_, failsHere, same⟩
      · obtain ⟨value, member, found⟩ := lookup_of_evaluateLinks lookup failsLater
        exact ⟨value, by simp [linkValues, member], found⟩
      · cases same
        obtain ⟨value, member, found⟩ := lookup_of_evaluate lookup failsHere
        exact ⟨value, by simp [linkValues, member], found⟩

end

/-- A condition reports only names that one of its values reads and that are not
declared. -/
theorem undeclared_of_evaluate {condition : Condition}
    (fails : (condition.evaluate store).run.MayEnd (.error (.unknownVariable name))) :
    (∃ value ∈ condition.values, name ∈ value.namesRead) ∧ ¬ store.isDeclared name := by
  obtain ⟨value, member, read, readMember, fault⟩ := lookup_of_evaluate rfl fails
  obtain ⟨rfl, undeclared⟩ := Store.undeclared_of_lookupFault fault
  exact ⟨⟨value, member, readMember⟩, undeclared⟩

end Condition

namespace Modification

/-- The names that a modification reads besides its target. -/
def namesRead : Modification → List String
  | .compound _ value => value.namesRead
  | .assign value => value.namesRead
  | _ => []

/-- A modification looks up only its target and names that it reads. -/
theorem lookup_of_newValue {target : String} {modification : Modification}
    (settled : store.Settled) (lookup : error.isLookup)
    (fails : (modification.newValue target store).run.MayEnd (.error error)) :
    ∃ name, (name = target ∨ name ∈ modification.namesRead) ∧
      store.lookupFault? name = some error := by
  rw [newValue] at fails
  split at fails
  · next missing =>
      cases fails
      exact ⟨target, Or.inl rfl, by rw [Store.lookupFault?, missing]⟩
  · next entry found =>
      obtain ⟨scalar, current⟩ := settled entry (List.mem_of_find?_eq_some found)
      rw [current] at fails
      cases modification with
      | increment =>
          obtain ⟨_, impossible, _⟩ := Value.lookup_of_evaluate_extend lookup fails
          cases impossible
      | decrement =>
          obtain ⟨_, impossible, _⟩ := Value.lookup_of_evaluate_extend lookup fails
          cases impossible
      | compound operator value =>
          obtain ⟨name, read, fault⟩ := Value.lookup_of_evaluate_extend lookup fails
          exact ⟨name, Or.inr read, fault⟩
      | assign value =>
          simp only [apply, Evaluation.mayEnd_bind, Evaluation.mayEnd_pure] at fails
          rcases fails with ⟨_, _, impossible⟩ | ⟨_, failsInside, same⟩
          · cases impossible
          · cases same
            obtain ⟨name, read, fault⟩ := Value.lookup_of_result lookup failsInside
            exact ⟨name, Or.inr read, fault⟩

/-- A modification reports only its target or a name that it reads, and only if that
is not declared. -/
theorem undeclared_of_newValue {target : String} {modification : Modification}
    (settled : store.Settled)
    (fails : (modification.newValue target store).run.MayEnd
      (.error (.unknownVariable name))) :
    (name = target ∨ name ∈ modification.namesRead) ∧ ¬ store.isDeclared name := by
  obtain ⟨read, member, fault⟩ := lookup_of_newValue settled rfl fails
  obtain ⟨rfl, undeclared⟩ := Store.undeclared_of_lookupFault fault
  exact ⟨member, undeclared⟩

/-- The new value of a variable is that of a scalar. -/
theorem newValue_settled {target : String} {modification : Modification} {value : Value}
    (ends : (modification.newValue target store).run.MayEnd (.ok value)) :
    ∃ scalar, value = .ofScalar scalar := by
  rw [newValue] at ends
  split at ends
  · cases ends
  · cases modification with
    | increment => exact Value.evaluate_extend ends
    | decrement => exact Value.evaluate_extend ends
    | compound operator other => exact Value.evaluate_extend ends
    | assign other =>
        simp only [apply, Evaluation.mayEnd_bind, Evaluation.mayEnd_pure] at ends
        rcases ends with ⟨scalar, _, same⟩ | ⟨_, _, impossible⟩
        · exact ⟨scalar, Except.ok.inj same⟩
        · cases impossible

end Modification

end Letterline
