/-
Module: Letterline.Proofs.UnknownOperand
Purpose: Unknown operands leave no trace in the value of a chain.
Trusted boundary: none
Main exports:
  ResolvedPart, RefusesUnknown, Scalar.absorbAll, Value.resolveParts, Value.knownParts,
  Value.resolves_written, Value.unknown_erased
-/
import Letterline.Proofs.Evaluation
import Letterline.Script

namespace Letterline

/-!
An empty line of input is an operand of which nothing is known.  Wherever it stands in a chain,
the chain has the value that it has without it.  There is one exception: a string refuses an
unknown operand as it refuses every other one, unless the operator is `+`.

What the operands are is settled first.  They are resolved in order, so a chain on a console
comes down to a fold over what its operands turn out to be.
-/

/-! ### Chains of which the operands are known -/

/-- An operator with what its operand turned out to be. -/
structure ResolvedPart where
  operator : Operator
  operand : Option Scalar

namespace Scalar

/-- Takes operands into what has accumulated, one after the other. -/
def absorbAll (accumulated : Option Scalar) (parts : List ResolvedPart) :
    Except RuntimeError (Option Scalar) :=
  parts.foldlM (fun accumulated part => absorb accumulated part.operand part.operator) accumulated

end Scalar

/-- An outcome reports that an operation with an unknown operand is not supported. -/
def RefusesUnknown {α : Type} (outcome : Except RuntimeError α) : Prop :=
  ∃ left operator, outcome = .error (.unsupportedOperation left .unknown operator)

theorem refusesUnknown_map {α β : Type} {outcome : Except RuntimeError α} (f : α → β) :
    RefusesUnknown (outcome.map f) ↔ RefusesUnknown outcome := by
  cases outcome with
  | error error => simp [RefusesUnknown, Except.map]
  | ok result => simp [RefusesUnknown, Except.map]

namespace Scalar

variable {accumulated : Option Scalar} {parts : List ResolvedPart}

theorem absorbAll_of_ok {part : ResolvedPart} {next : Option Scalar}
    (taken : absorb accumulated part.operand part.operator = .ok next) :
    absorbAll accumulated (part :: parts) = absorbAll next parts := by
  rw [absorbAll, List.foldlM_cons, taken]
  rfl

theorem absorbAll_of_error {part : ResolvedPart} {error : RuntimeError}
    (fails : absorb accumulated part.operand part.operator = .error error) :
    absorbAll accumulated (part :: parts) = .error error := by
  rw [absorbAll, List.foldlM_cons, fails]
  rfl

/-! ### Refused operands -/

theorem kind_ne_unknown (scalar : Scalar) : scalar.kind ≠ .unknown := by
  cases scalar <;> nofun

theorem not_refusesUnknown_ofCodepoint (codepoint : Int32) :
    ¬RefusesUnknown (ofCodepoint codepoint) := by
  rintro ⟨_, _, fails⟩
  rw [ofCodepoint] at fails
  by_cases valid : 0 ≤ codepoint.toInt ∧ codepoint.toInt.toNat.isValidChar
  · rw [dif_pos valid] at fails
    cases fails
  · rw [dif_neg valid] at fails
    cases fails

theorem not_refusesUnknown_concatenate (left right : Scalar) (operator : Operator) :
    ¬RefusesUnknown (left.concatenate right operator) := by
  rintro ⟨_, _, fails⟩
  rw [concatenate] at fails
  split at fails
  · cases fails
  · rw [Except.error.injEq, RuntimeError.unsupportedOperation.injEq] at fails
    exact right.kind_ne_unknown fails.2.1

/-- A known operand is never refused as an unknown one. -/
theorem not_refusesUnknown_combine (left right : Scalar) (operator : Operator) :
    ¬RefusesUnknown (left.combine right operator) := by
  unfold combine
  split
  all_goals
    first
    | exact not_refusesUnknown_ofCodepoint _
    | exact not_refusesUnknown_concatenate _ _ _
    | rintro ⟨_, _, fails⟩; cases fails

/-- What is refused as an unknown operand is one, and a string refuses it under another operator
than `+`. -/
theorem refusesUnknown_absorb {accumulated operand : Option Scalar} {operator : Operator} :
    RefusesUnknown (absorb accumulated operand operator) ↔
      operand = none ∧ operator ≠ .plus ∧ ∃ text, accumulated = some (.string text) := by
  constructor
  · rintro ⟨kind, reported, fails⟩
    unfold absorb at fails
    split at fails
    · cases fails
    · next text =>
        split at fails
        · cases fails
        · next other => exact ⟨rfl, other, text, rfl⟩
    · cases fails
    · next left right =>
        exfalso
        apply not_refusesUnknown_combine left right operator
        cases combined : left.combine right operator with
        | ok scalar => rw [combined] at fails; cases fails
        | error error => rw [combined] at fails; cases fails; exact ⟨_, _, rfl⟩
  · rintro ⟨rfl, other, text, rfl⟩
    exact ⟨.string, operator, if_neg other⟩

/-- An unknown operand that is not refused changes nothing. -/
theorem absorb_unknown {operator : Operator}
    (accepted : ¬RefusesUnknown (absorb accumulated none operator)) :
    absorb accumulated none operator = .ok accumulated := by
  unfold absorb at accepted ⊢
  split
  · rfl
  · next text =>
      split
      · rfl
      · next other => exact absurd ⟨.string, operator, if_neg other⟩ accepted
  · rfl
  · next impossible => cases impossible

/-- A chain is refused for an unknown operand exactly where one comes to a string under another
operator than `+`. -/
theorem refusesUnknown_absorbAll :
    RefusesUnknown (absorbAll accumulated parts) ↔
      ∃ index operator text, parts[index]? = some ⟨operator, none⟩ ∧ operator ≠ .plus ∧
        absorbAll accumulated (parts.take index) = .ok (some (.string text)) := by
  induction parts generalizing accumulated with
  | nil =>
      constructor
      · rintro ⟨_, _, impossible⟩
        cases impossible
      · rintro ⟨_, _, _, impossible, _⟩
        cases impossible
  | cons part rest inductionHypothesis =>
      -- the first part is refused itself, or the fold goes on with the others
      cases outcome : absorb accumulated part.operand part.operator with
      | error error =>
          have here : RefusesUnknown (absorbAll accumulated (part :: rest)) ↔
              RefusesUnknown (absorb accumulated part.operand part.operator) := by
            rw [absorbAll_of_error outcome, outcome]
          rw [here, refusesUnknown_absorb]
          constructor
          · rintro ⟨unknown, other, text, rfl⟩
            exact ⟨0, part.operator, text, by rw [← unknown]; rfl, other, rfl⟩
          · rintro ⟨index | index, operator, text, found, other, reaches⟩
            · cases found
              cases reaches
              exact ⟨rfl, other, text, rfl⟩
            · rw [List.take_succ_cons, absorbAll_of_error outcome] at reaches
              cases reaches
      | ok next =>
          rw [absorbAll_of_ok outcome, inductionHypothesis]
          constructor
          · rintro ⟨index, operator, text, found, other, reaches⟩
            refine ⟨index + 1, operator, text, found, other, ?_⟩
            rw [List.take_succ_cons, absorbAll_of_ok outcome, reaches]
          · rintro ⟨index | index, operator, text, found, other, reaches⟩
            · cases found
              cases reaches
              obtain ⟨_, _, refused⟩ := refusesUnknown_absorb.mpr ⟨rfl, other, text, rfl⟩
              rw [outcome] at refused
              cases refused
            · rw [List.take_succ_cons, absorbAll_of_ok outcome] at reaches
              exact ⟨index, operator, text, found, other, reaches⟩

/-- Unless it is refused, a chain accumulates what it does without its unknown operands. -/
theorem absorbAll_filter_known (accepted : ¬RefusesUnknown (absorbAll accumulated parts)) :
    absorbAll accumulated (parts.filter (·.operand.isSome)) = absorbAll accumulated parts := by
  induction parts generalizing accumulated with
  | nil => rfl
  | cons part rest inductionHypothesis =>
      cases outcome : absorb accumulated part.operand part.operator with
      | error error =>
          rcases part with ⟨operator, operand | right⟩
          · have refused : ¬RefusesUnknown (absorb accumulated none operator) := by
              rwa [outcome, ← absorbAll_of_error outcome]
            rw [absorb_unknown refused] at outcome
            cases outcome
          · rw [List.filter_cons_of_pos rfl, absorbAll_of_error outcome,
              absorbAll_of_error outcome]
      | ok next =>
          rw [absorbAll_of_ok outcome] at accepted ⊢
          rw [← inductionHypothesis accepted]
          rcases part with ⟨operator, operand | right⟩
          · have taken : ¬RefusesUnknown (absorb accumulated none operator) := by
              rw [outcome]
              nofun
            rw [absorb_unknown taken] at outcome
            cases outcome
            rw [List.filter_cons_of_neg Bool.false_ne_true]
          · rw [List.filter_cons_of_pos rfl, absorbAll_of_ok outcome]

/-- Unknown operands alone leave nothing known. -/
theorem absorbAll_of_unknown (unknown : ∀ part ∈ parts, part.operand = none) :
    absorbAll none parts = .ok none := by
  induction parts with
  | nil => rfl
  | cons part rest inductionHypothesis =>
      obtain ⟨here, further⟩ := List.forall_mem_cons.mp unknown
      have taken : absorb none part.operand part.operator = .ok none := by rw [here]; rfl
      rw [absorbAll_of_ok taken, inductionHypothesis further]

end Scalar

/-! ### Chains on a console -/

namespace Value

open Evaluation

variable {σ : Type} {console : Console σ} {state : σ} {store : Store}

/-- Resolves the operands of parts, one after the other. -/
def resolveParts (store : Store) : List Part → Evaluation (List ResolvedPart)
  | [] => return []
  | part :: rest => do
      let operand ← part.operand.resolve store
      let others ← resolveParts store rest
      return ⟨part.operator, operand⟩ :: others

/-- The parts of a chain of which the operand is known, as literals. -/
def knownParts (parts : List ResolvedPart) : List Part :=
  parts.filterMap fun part => part.operand.map fun scalar => ⟨part.operator, .literal scalar⟩

section Resolved

variable {part : Part} {rest parts : List Part} {resolved : List ResolvedPart}

/-- Parts that are resolved have a first one that is, and then the others are. -/
theorem resolved_cons
    (resolves : (resolveParts store (part :: rest)).outcome console state = .ok resolved) :
    ∃ operand after others,
      (part.operand.resolve store).run.run console state = (.ok operand, after) ∧
        (resolveParts store rest).outcome console after = .ok others ∧
        resolved = ⟨part.operator, operand⟩ :: others := by
  rw [resolveParts] at resolves
  rcases ran : (part.operand.resolve store).run.run console state with ⟨error | operand, after⟩
  · rw [outcome_bind_of_error ran] at resolves
    cases resolves
  · rw [outcome_bind_of_ok ran, outcome_map] at resolves
    cases further : (resolveParts store rest).outcome console after with
    | error error => rw [further] at resolves; cases resolves
    | ok others =>
        rw [further] at resolves
        cases resolves
        exact ⟨operand, after, others, rfl, further, rfl⟩

/-- A chain on a console comes down to what its operands turn out to be. -/
theorem outcome_fold {accumulated : Option Scalar}
    (resolves : (resolveParts store parts).outcome console state = .ok resolved) :
    (fold store accumulated parts).outcome console state =
      Scalar.absorbAll accumulated resolved := by
  induction parts generalizing accumulated resolved state with
  | nil => cases resolves; rfl
  | cons part rest inductionHypothesis =>
      obtain ⟨operand, after, others, ran, further, rfl⟩ := resolved_cons resolves
      rw [fold, outcome_bind_of_ok ran]
      cases taken : Scalar.absorb accumulated operand part.operator with
      | error error => rw [Scalar.absorbAll_of_error taken]; rfl
      | ok next =>
          rw [Scalar.absorbAll_of_ok taken]
          exact inductionHypothesis further

theorem resolved_take (index : Nat)
    (resolves : (resolveParts store parts).outcome console state = .ok resolved) :
    (resolveParts store (parts.take index)).outcome console state =
      .ok (resolved.take index) := by
  induction parts generalizing index resolved state with
  | nil => cases resolves; simp [resolveParts]; rfl
  | cons part rest inductionHypothesis =>
      obtain ⟨operand, after, others, ran, further, rfl⟩ := resolved_cons resolves
      cases index with
      | zero => rfl
      | succ index =>
          rw [List.take_succ_cons, resolveParts, outcome_bind_of_ok ran, outcome_map,
            inductionHypothesis index further]
          rfl

end Resolved

/-- A part that comes out as `part` on a console that gives empty lines: an unknown operand is asked
for, and a known one is written out. -/
def written (part : ResolvedPart) : Part :=
  ⟨part.operator, part.operand.elim .input .literal⟩

/-- Every sequence of operands is what the parts of some chain turn out to be. -/
theorem resolves_written (store : Store) (resolved : List ResolvedPart) {script : Script}
    (silent : script.answers = []) (unbroken : script.failingRequest = none) :
    (resolveParts store (resolved.map written)).outcome Script.console script = .ok resolved := by
  induction resolved generalizing script with
  | nil => rfl
  | cons part rest inductionHypothesis =>
      obtain ⟨after, ran, silentAfter, unbrokenAfter⟩ : ∃ after : Script,
          ((written part).operand.resolve store).run.run Script.console script =
              (.ok part.operand, after) ∧
            after.answers = [] ∧ after.failingRequest = none := by
        rcases part with ⟨operator, none | scalar⟩
        · refine ⟨{ script with requests := script.requests + 1 }, ?_, silent, unbroken⟩
          obtain ⟨_, _, _, _, _, _, _⟩ := script
          cases silent
          cases unbroken
          rfl
        · exact ⟨script, rfl, silent, unbroken⟩
      rw [List.map_cons, resolveParts, outcome_bind_of_ok ran, outcome_map,
        inductionHypothesis silentAfter unbrokenAfter]
      rfl

/-- The value of a chain is what it accumulates, or the empty string. -/
theorem result_ofParts (parts : List Part) :
    (ofParts parts).result store =
      fold store none parts >>= fun accumulated => pure (accumulated.getD (.string "")) :=
  rfl

theorem fold_literal (accumulated : Option Scalar) (operator : Operator) (scalar : Scalar)
    (rest : List Part) :
    fold store accumulated (⟨operator, .literal scalar⟩ :: rest) =
      ofExcept (Scalar.absorb accumulated (some scalar) operator) >>=
        fun next => fold store next rest :=
  rfl

/-- A chain of the known operands accumulates what they do. -/
theorem run_fold_knownParts (accumulated : Option Scalar) (resolved : List ResolvedPart) :
    (fold store accumulated (knownParts resolved)).run =
      .done (Scalar.absorbAll accumulated (resolved.filter (·.operand.isSome))) := by
  induction resolved generalizing accumulated with
  | nil => rfl
  | cons part rest inductionHypothesis =>
      rcases part with ⟨operator, none | scalar⟩
      · exact inductionHypothesis accumulated
      · have first : knownParts (⟨operator, some scalar⟩ :: rest) =
            ⟨operator, .literal scalar⟩ :: knownParts rest := rfl
        rw [List.filter_cons_of_pos rfl, first, fold_literal]
        cases taken : Scalar.absorb accumulated (some scalar) operator with
        | error error =>
            rw [Scalar.absorbAll_of_error taken]
            rfl
        | ok next =>
            rw [Scalar.absorbAll_of_ok taken, ← inductionHypothesis next]
            rfl

/-- A chain of the known operands has the value that they accumulate. -/
theorem run_result_knownParts (resolved : List ResolvedPart) :
    ((ofParts (knownParts resolved)).result store).run =
      .done ((Scalar.absorbAll none (resolved.filter (·.operand.isSome))).map
        (·.getD (.string ""))) := by
  rw [result_ofParts, ExceptT.run_bind, run_fold_knownParts]
  cases Scalar.absorbAll none (resolved.filter (·.operand.isSome)) <;> rfl

/-- Unknown operands leave no trace in a chain, whatever its operands are read from and wherever
the unknown ones stand. -/
theorem unknown_erased {parts : List Part} {resolved : List ResolvedPart}
    (resolves : (resolveParts store parts).outcome console state = .ok resolved) :
    let outcome := ((ofParts parts).result store).outcome console state
    (¬RefusesUnknown outcome →
      ((ofParts (knownParts resolved)).result store).run = .done outcome) ∧
    ((∀ part ∈ resolved, part.operand = none) → outcome = .ok (.string "")) ∧
    (RefusesUnknown outcome ↔
      ∃ index operator text, resolved[index]? = some ⟨operator, none⟩ ∧ operator ≠ .plus ∧
        (fold store none (parts.take index)).outcome console state =
          .ok (some (.string text))) := by
  intro outcome
  have reached (index : Nat) : (fold store none (parts.take index)).outcome console state =
      Scalar.absorbAll none (resolved.take index) :=
    outcome_fold (resolved_take index resolves)
  have computed : outcome = (Scalar.absorbAll none resolved).map (·.getD (.string "")) := by
    rw [← outcome_fold resolves, ← outcome_map, ← result_ofParts]
  have refusal : RefusesUnknown outcome ↔ RefusesUnknown (Scalar.absorbAll none resolved) := by
    rw [computed, refusesUnknown_map]
  refine ⟨fun accepted => ?_, fun unknown => ?_, ?_⟩
  · rw [run_result_knownParts, Scalar.absorbAll_filter_known (mt refusal.mpr accepted), computed]
  · rw [computed, Scalar.absorbAll_of_unknown unknown]
    rfl
  · rw [refusal, Scalar.refusesUnknown_absorbAll]
    simp only [reached]

/-- Two empty lines around a text leave no trace, and a third one that is subtracted is refused. -/
theorem unknown_erased_around_a_text :
    ((ofParts [⟨.plus, .literal (.string "a")⟩]).result .empty).run = .done (.ok (.string "a")) ∧
      ((ofParts [⟨.none, .input⟩, ⟨.plus, .literal (.string "a")⟩, ⟨.plus, .input⟩]).result
        .empty).outcome Script.console (.ofAnswers []) = .ok (.string "a") ∧
      RefusesUnknown (((ofParts [⟨.none, .input⟩, ⟨.plus, .literal (.string "a")⟩,
        ⟨.plus, .input⟩, ⟨.minus, .input⟩]).result .empty).outcome Script.console
          (.ofAnswers [])) := by
  have accepted : ((ofParts [⟨.none, .input⟩, ⟨.plus, .literal (.string "a")⟩,
      ⟨.plus, .input⟩]).result .empty).outcome Script.console (.ofAnswers []) =
        .ok (.string "a") := rfl
  have silent : (resolveParts .empty [⟨.none, .input⟩, ⟨.plus, .literal (.string "a")⟩,
      ⟨.plus, .input⟩]).outcome Script.console (.ofAnswers []) =
        .ok [⟨.none, none⟩, ⟨.plus, some (.string "a")⟩, ⟨.plus, none⟩] := rfl
  have subtracted : (resolveParts .empty [⟨.none, .input⟩, ⟨.plus, .literal (.string "a")⟩,
      ⟨.plus, .input⟩, ⟨.minus, .input⟩]).outcome Script.console (.ofAnswers []) =
        .ok [⟨.none, none⟩, ⟨.plus, some (.string "a")⟩, ⟨.plus, none⟩, ⟨.minus, none⟩] := rfl
  refine ⟨?_, accepted, ?_⟩
  · have erased := (unknown_erased silent).1
    rw [accepted] at erased
    exact erased nofun
  · exact (unknown_erased subtracted).2.2.mpr ⟨3, .minus, "a", rfl, nofun, rfl⟩

end Value

end Letterline
