/-
Module: Letterline.Proofs.ResultKind
Purpose: The kind of a chain's value depends on the kinds of its operands only.
Trusted boundary: none
Main exports:
  Kind.combine, Kind.ofChain, IsInvalidCodepoint, Scalar.kind_absorbAll,
  Scalar.absorbAll_string, Value.kind_of_result, Value.kind_determined
-/
import Letterline.Proofs.UnknownOperand

namespace Letterline

/-!
Numbers never decide what kind of value a chain has, or why it has none: overflow, NaN and
division by zero stay inside their kind.  So the kind can be computed from the kinds of the
operands.  There is one exception: whether a number is the codepoint of a character depends on
the number.

Once a string has accumulated, nothing but its own text and the texts of the other operands
matters.
-/

/-- An outcome reports a codepoint that no character has. -/
def IsInvalidCodepoint {α : Type} (outcome : Except RuntimeError α) : Prop :=
  ∃ codepoint, outcome = .error (.invalidCodepoint codepoint)

theorem isInvalidCodepoint_map {α β : Type} {outcome : Except RuntimeError α} (f : α → β) :
    IsInvalidCodepoint (outcome.map f) ↔ IsInvalidCodepoint outcome := by
  cases outcome with
  | error error => simp [IsInvalidCodepoint, Except.map]
  | ok result => simp [IsInvalidCodepoint, Except.map]

/-! ### Computing with kinds -/

namespace Kind

/-- The kind of what two values are combined to, or why they cannot be combined. -/
def combine (left right : Kind) (operator : Operator) : Except RuntimeError Kind :=
  match left, right with
  | .integer, .integer | .integer, .character | .integer, .boolean | .boolean, .integer =>
      .ok .integer
  | .integer, .double | .boolean, .double | .double, .integer | .double, .double
  | .double, .character | .double, .boolean => .ok .double
  | .character, .integer => .ok .character
  | .character, .double => .error (.unsupportedCombination .character .double)
  | .character, .boolean => .error (.unsupportedCombination .character .boolean)
  | .boolean, .character => .error (.unsupportedCombination .boolean .character)
  | .boolean, .boolean => .error (.unsupportedCombination .boolean .boolean)
  | left, right =>
      if operator = .plus then .ok .string
      else .error (.unsupportedOperation left right operator)

/-- The kind of what has accumulated once another operand is taken in.  Nothing is known of
an operand without a kind. -/
def absorb (accumulated operand : Option Kind) (operator : Operator) :
    Except RuntimeError (Option Kind) :=
  match accumulated, operand with
  | none, operand => .ok operand
  | some .string, none =>
      if operator = .plus then .ok (some .string)
      else .error (.unsupportedOperation .string .unknown operator)
  | some left, none => .ok (some left)
  | some left, some right => (left.combine right operator).map some

theorem absorb_some (left right : Kind) (operator : Operator) :
    absorb (some left) (some right) operator = (left.combine right operator).map some := by
  cases left <;> rfl

/-- The kind of what has accumulated once further operands are taken in. -/
def absorbAll (accumulated : Option Kind) (parts : List (Operator × Option Kind)) :
    Except RuntimeError (Option Kind) :=
  parts.foldlM (fun accumulated (operator, operand) => absorb accumulated operand operator)
    accumulated

theorem absorbAll_cons (accumulated : Option Kind) (operator : Operator) (operand : Option Kind)
    (rest : List (Operator × Option Kind)) :
    absorbAll accumulated ((operator, operand) :: rest) =
      (absorb accumulated operand operator).bind fun next => absorbAll next rest :=
  List.foldlM_cons

/-- The kind of the value of a chain.  A chain of which nothing is known is a string. -/
def ofChain (parts : List (Operator × Option Kind)) : Except RuntimeError Kind :=
  (absorbAll none parts).map (·.getD .string)

end Kind

/-- An operator with the kind of its operand. -/
def ResolvedPart.kinds (part : ResolvedPart) : Operator × Option Kind :=
  (part.operator, part.operand.map Scalar.kind)

/-- The texts of the operands of which something is known, one behind the other. -/
def ResolvedPart.textOf (parts : List ResolvedPart) : String :=
  .join (parts.filterMap fun part => part.operand.map Scalar.text)

/-! ### Kinds tell what happens to values -/

namespace Scalar

variable {accumulated : Option Scalar} {parts : List ResolvedPart} {text : String}

theorem kind_ofCodepoint {codepoint : Int32} (valid : ¬IsInvalidCodepoint (ofCodepoint codepoint)) :
    (ofCodepoint codepoint).map kind = .ok .character := by
  rw [ofCodepoint] at valid ⊢
  by_cases inRange : 0 ≤ codepoint.toInt ∧ codepoint.toInt.toNat.isValidChar
  · rw [dif_pos inRange]
    rfl
  · rw [dif_neg inRange] at valid
    exact absurd ⟨codepoint, rfl⟩ valid

theorem kind_concatenate (left right : Scalar) (operator : Operator) :
    (left.concatenate right operator).map kind =
      if operator = .plus then .ok .string
      else .error (.unsupportedOperation left.kind right.kind operator) := by
  rw [concatenate]
  split <;> rfl

/-- Of the 25 pairs of kinds only a character and an integer can be combined to something that
their kinds do not tell. -/
theorem kind_combine {left right : Scalar} {operator : Operator}
    (valid : ¬IsInvalidCodepoint (left.combine right operator)) :
    (left.combine right operator).map kind = left.kind.combine right.kind operator := by
  cases left with
  | int => cases right <;> first | rfl | exact kind_concatenate _ _ operator
  | double => cases right <;> first | rfl | exact kind_concatenate _ _ operator
  | bool => cases right <;> first | rfl | exact kind_concatenate _ _ operator
  | string => cases right <;> exact kind_concatenate _ _ operator
  | char =>
      cases right with
      | int => exact kind_ofCodepoint valid
      | double => rfl
      | bool => rfl
      | char => exact kind_concatenate _ _ operator
      | string => exact kind_concatenate _ _ operator

/-- Taking in an operand goes as it does for the kinds. -/
theorem kind_absorb {operand : Option Scalar} {operator : Operator}
    (valid : ¬IsInvalidCodepoint (absorb accumulated operand operator)) :
    (absorb accumulated operand operator).map (·.map kind) =
      Kind.absorb (accumulated.map kind) (operand.map kind) operator := by
  cases accumulated with
  | none => rfl
  | some left =>
      cases operand with
      | none =>
          cases left with
          | string text =>
              rw [absorb, Option.map_some, Option.map_none, kind, Kind.absorb]
              split <;> rfl
          | _ => rfl
      | some right =>
          rw [absorb_some, isInvalidCodepoint_map] at valid
          calc (absorb (some left) (some right) operator).map (·.map kind)
            _ = ((left.combine right operator).map kind).map some := by
                rw [absorb_some]
                cases left.combine right operator <;> rfl
            _ = (left.kind.combine right.kind operator).map some := by rw [kind_combine valid]
            _ = Kind.absorb (some left.kind) (some right.kind) operator :=
                (Kind.absorb_some left.kind right.kind operator).symm

/-- So a whole chain goes as it does for the kinds of its operands. -/
theorem kind_absorbAll (valid : ¬IsInvalidCodepoint (absorbAll accumulated parts)) :
    (absorbAll accumulated parts).map (·.map kind) =
      Kind.absorbAll (accumulated.map kind) (parts.map ResolvedPart.kinds) := by
  induction parts generalizing accumulated with
  | nil => rfl
  | cons part rest inductionHypothesis =>
      rw [List.map_cons, Kind.absorbAll_cons, ResolvedPart.kinds]
      cases outcome : absorb accumulated part.operand part.operator with
      | error error =>
          have fails : absorbAll accumulated (part :: rest) = .error error :=
            absorbAll_of_error outcome
          have here : ¬IsInvalidCodepoint (absorb accumulated part.operand part.operator) := by
            rwa [outcome, ← fails]
          rw [fails, ← kind_absorb here, outcome]
          rfl
      | ok next =>
          have here : ¬IsInvalidCodepoint (absorb accumulated part.operand part.operator) := by
            rw [outcome]
            nofun
          rw [absorbAll_of_ok outcome] at valid ⊢
          rw [← kind_absorb here, outcome, inductionHypothesis valid]
          rfl

/-! ### What accumulates behind a string -/

/-- What accumulates first is where the others are taken in. -/
theorem absorbAll_append_of_ok {front back : List ResolvedPart} {next : Option Scalar}
    (reached : absorbAll accumulated front = .ok next) :
    absorbAll accumulated (front ++ back) = absorbAll next back := by
  rw [absorbAll] at reached
  rw [absorbAll, List.foldlM_append, reached]
  rfl

/-- A string takes in an operand under `+` only, and then puts its text behind its own. -/
theorem absorb_string (text : String) (operand : Option Scalar) (operator : Operator) :
    absorb (some (.string text)) operand operator =
      if operator = .plus then .ok (some (.string (text ++ operand.elim "" Scalar.text)))
      else .error (.unsupportedOperation .string (operand.elim .unknown kind) operator) := by
  cases operand with
  | none => rw [absorb, Option.elim_none, String.append_empty]; rfl
  | some right =>
      have joined : (string text).combine right operator =
          (string text).concatenate right operator := by cases right <;> rfl
      rw [absorb_some, joined, concatenate]
      split <;> rfl

/-- Behind a string all operands have to be joined by `+`, and what accumulates is the text of
the string and theirs. -/
theorem absorbAll_string :
    absorbAll (some (.string text)) parts = .ok accumulated ↔
      (∀ part ∈ parts, part.operator = .plus) ∧
        accumulated = some (.string (text ++ ResolvedPart.textOf parts)) := by
  induction parts generalizing text with
  | nil =>
      have stays : absorbAll (some (.string text)) [] = .ok (some (.string text)) := rfl
      have nothing : text ++ ResolvedPart.textOf [] = text := String.append_empty
      rw [stays, nothing, Except.ok.injEq]
      exact ⟨fun same => ⟨List.forall_mem_nil _, same.symm⟩, fun both => both.2.symm⟩
  | cons part rest inductionHypothesis =>
      have texts : ResolvedPart.textOf (part :: rest) =
          part.operand.elim "" Scalar.text ++ ResolvedPart.textOf rest := by
        cases known : part.operand <;> simp [ResolvedPart.textOf, known]
      rw [List.forall_mem_cons, texts, ← String.append_assoc]
      by_cases joins : part.operator = .plus
      · have taken := absorb_string text part.operand part.operator
        rw [if_pos joins] at taken
        rw [absorbAll_of_ok taken, inductionHypothesis, and_iff_right joins]
      · have refused := absorb_string text part.operand part.operator
        rw [if_neg joins] at refused
        rw [absorbAll_of_error refused]
        constructor
        · nofun
        · rintro ⟨⟨joined, _⟩, _⟩
          exact absurd joined joins

end Scalar

/-! ### Chains on consoles -/

namespace Value

open Evaluation

variable {σ : Type} {console : Console σ} {state : σ} {store : Store} {parts : List Part}

/-- The operands of a chain that comes to something have been resolved. -/
theorem exists_resolved_of_fold {accumulated last : Option Scalar}
    (folds : (fold store accumulated parts).outcome console state = .ok last) :
    ∃ resolved, (resolveParts store parts).outcome console state = .ok resolved := by
  induction parts generalizing accumulated state with
  | nil => exact ⟨[], rfl⟩
  | cons part rest inductionHypothesis =>
      rw [fold] at folds
      rcases ran : (part.operand.resolve store).run.run console state with ⟨error | operand, after⟩
      · rw [outcome_bind_of_error ran] at folds
        cases folds
      · rw [outcome_bind_of_ok ran] at folds
        cases taken : Scalar.absorb accumulated operand part.operator with
        | error error => rw [taken] at folds; cases folds
        | ok next =>
            rw [taken] at folds
            obtain ⟨others, further⟩ := inductionHypothesis folds
            refine ⟨⟨part.operator, operand⟩ :: others, ?_⟩
            rw [resolveParts, outcome_bind_of_ok ran, outcome_map, further]
            rfl

/-- The value of a chain on a console is what its operands accumulate to. -/
theorem outcome_result {resolved : List ResolvedPart}
    (resolves : (resolveParts store parts).outcome console state = .ok resolved) :
    ((ofParts parts).result store).outcome console state =
      (Scalar.absorbAll none resolved).map (·.getD (.string "")) := by
  rw [result_ofParts, outcome_map, outcome_fold resolves]

/-- The kind of the value of a chain, or why it has none, is what the kinds of its operands
say. -/
theorem kind_of_result {resolved : List ResolvedPart}
    (resolves : (resolveParts store parts).outcome console state = .ok resolved)
    (valid : ¬IsInvalidCodepoint (((ofParts parts).result store).outcome console state)) :
    (((ofParts parts).result store).outcome console state).map Scalar.kind =
      Kind.ofChain (resolved.map ResolvedPart.kinds) := by
  rw [outcome_result resolves] at valid ⊢
  rw [isInvalidCodepoint_map] at valid
  have kinds := Scalar.kind_absorbAll valid
  rw [Option.map_none] at kinds
  rw [Kind.ofChain, ← kinds]
  cases Scalar.absorbAll none resolved with
  | error error => rfl
  | ok accumulated => cases accumulated <;> rfl

/-- Once the front of a chain has come to a string, the chain has a value exactly if its other
operands can be resolved and are all joined by `+`: the string followed by their texts. -/
theorem result_of_string {index : Nat} {text : String} {scalar : Scalar}
    (front : (fold store none (parts.take index)).outcome console state =
      .ok (some (.string text))) :
    ((ofParts parts).result store).outcome console state = .ok scalar ↔
      ∃ resolved, (resolveParts store parts).outcome console state = .ok resolved ∧
        (∀ part ∈ resolved.drop index, part.operator = .plus) ∧
        scalar = .string (text ++ ResolvedPart.textOf (resolved.drop index)) := by
  have goesOn {resolved : List ResolvedPart}
      (resolves : (resolveParts store parts).outcome console state = .ok resolved) :
      Scalar.absorbAll none resolved =
        Scalar.absorbAll (some (.string text)) (resolved.drop index) := by
    have reached : Scalar.absorbAll none (resolved.take index) = .ok (some (.string text)) := by
      rw [← outcome_fold (resolved_take index resolves), front]
    calc Scalar.absorbAll none resolved
      _ = Scalar.absorbAll none (resolved.take index ++ resolved.drop index) := by
          rw [List.take_append_drop]
      _ = Scalar.absorbAll (some (.string text)) (resolved.drop index) :=
          Scalar.absorbAll_append_of_ok reached
  constructor
  · intro succeeds
    cases folded : (fold store none parts).outcome console state with
    | error error =>
        rw [result_ofParts, outcome_map, folded] at succeeds
        cases succeeds
    | ok last =>
        obtain ⟨resolved, resolves⟩ := exists_resolved_of_fold folded
        rw [outcome_fold resolves, goesOn resolves, Scalar.absorbAll_string] at folded
        obtain ⟨joined, accumulates⟩ := folded
        rw [outcome_result resolves, goesOn resolves,
          Scalar.absorbAll_string.mpr ⟨joined, rfl⟩] at succeeds
        exact ⟨resolved, resolves, joined, (Except.ok.inj succeeds).symm⟩
  · rintro ⟨resolved, resolves, joined, rfl⟩
    rw [outcome_result resolves, goesOn resolves, Scalar.absorbAll_string.mpr ⟨joined, rfl⟩]
    rfl

/-- What a chain comes to is determined by kinds alone.  If the operands of another chain with
the same operators turn out to be of the same kinds, or unknown in the same places, then both
chains have values of one kind or both fail in the same way, wherever each of them is evaluated
and unless a number is the codepoint of no character.

Once the front of a chain has come to a string, the chain fails, or its value is that string
followed by the texts of the further operands of which something is known.  It has a value
exactly if these operands can be resolved and are all joined by `+`. -/
theorem kind_determined (store : Store) (console : Console σ) (state : σ) (parts : List Part) :
    let outcome := ((ofParts parts).result store).outcome console state
    (∀ {τ : Type} (otherStore : Store) (otherConsole : Console τ) (otherState : τ)
        (otherParts : List Part) (resolved otherResolved : List ResolvedPart),
      let otherOutcome :=
        ((ofParts otherParts).result otherStore).outcome otherConsole otherState
      (resolveParts store parts).outcome console state = .ok resolved →
      (resolveParts otherStore otherParts).outcome otherConsole otherState = .ok otherResolved →
      resolved.map ResolvedPart.kinds = otherResolved.map ResolvedPart.kinds →
      ¬IsInvalidCodepoint outcome → ¬IsInvalidCodepoint otherOutcome →
      outcome.map Scalar.kind = otherOutcome.map Scalar.kind) ∧
    ∀ (index : Nat) (text : String),
      (fold store none (parts.take index)).outcome console state = .ok (some (.string text)) →
      ∀ scalar, outcome = .ok scalar ↔
        ∃ resolved, (resolveParts store parts).outcome console state = .ok resolved ∧
          (∀ part ∈ resolved.drop index, part.operator = .plus) ∧
          scalar = .string (text ++ ResolvedPart.textOf (resolved.drop index)) := by
  intro outcome
  refine ⟨?_, fun index text front scalar => result_of_string front⟩
  intro τ otherStore otherConsole otherState otherParts resolved otherResolved otherOutcome
    resolves otherResolves sameKinds valid otherValid
  calc outcome.map Scalar.kind
    _ = Kind.ofChain (resolved.map ResolvedPart.kinds) := kind_of_result resolves valid
    _ = Kind.ofChain (otherResolved.map ResolvedPart.kinds) := by rw [sameKinds]
    _ = otherOutcome.map Scalar.kind := (kind_of_result otherResolves otherValid).symm

/-! ### Two divisions, and a chain that becomes a string -/

/-- A store with a number. -/
def holdingSeven : Store :=
  ⟨[⟨"n", .ofScalar (.int 7)⟩], [["n"]]⟩

/-- A variable divided by an answer, and another answer. -/
def askedDivision : List Part :=
  [⟨.none, .variable "n"⟩, ⟨.divide, .input⟩, ⟨.plus, .input⟩]

/-- A number divided by a number, and an answer. -/
def writtenDivision : List Part :=
  [⟨.none, .literal (.int 6)⟩, ⟨.divide, .literal (.int 4)⟩, ⟨.plus, .input⟩]

/-- Two characters, an answer and a truth value. -/
def lettersAndTruth : List Part :=
  [⟨.none, .literal (.char 'a')⟩, ⟨.plus, .literal (.char 'b')⟩, ⟨.plus, .input⟩,
    ⟨.plus, .literal (.bool true)⟩]

/-- A division by zero and another one both have a number for value, with an empty line behind
them; two characters become a string, which an empty line leaves alone. -/
theorem kind_determined_by_zero :
    (((ofParts askedDivision).result holdingSeven).outcome Script.console
          (.ofAnswers ["0"])).map Scalar.kind =
        (((ofParts writtenDivision).result .empty).outcome Script.console
          (.ofAnswers [])).map Scalar.kind ∧
      ((ofParts askedDivision).result holdingSeven).outcome Script.console (.ofAnswers ["0"]) =
        .ok (.int Int32.maxValue) ∧
      (fold .empty none (lettersAndTruth.take 2)).outcome Script.console (.ofAnswers []) =
        .ok (some (.string "ab")) ∧
      ((ofParts lettersAndTruth).result .empty).outcome Script.console (.ofAnswers []) =
        .ok (.string "abtrue") := by
  have largest : (Operator.divide.apply (.ofInt32 7) (.ofInt32 0)).toInt32 = Int32.maxValue := by
    decide +kernel
  have asked : ((ofParts askedDivision).result holdingSeven).outcome Script.console
      (.ofAnswers ["0"]) = .ok (.int Int32.maxValue) := by
    rw [← largest]
    rfl
  have written : ∃ quotient, ((ofParts writtenDivision).result .empty).outcome Script.console
      (.ofAnswers []) = .ok (.int quotient) := ⟨_, rfl⟩
  have front : (fold .empty none (lettersAndTruth.take 2)).outcome Script.console
      (.ofAnswers []) = .ok (some (.string "ab")) := rfl
  refine ⟨?_, asked, front, ?_⟩
  · refine (kind_determined holdingSeven Script.console (.ofAnswers ["0"]) askedDivision).1
      .empty Script.console (.ofAnswers []) writtenDivision
      [⟨.none, some (.int 7)⟩, ⟨.divide, some (.int 0)⟩, ⟨.plus, none⟩]
      [⟨.none, some (.int 6)⟩, ⟨.divide, some (.int 4)⟩, ⟨.plus, none⟩] rfl rfl rfl ?_ ?_
    · rw [asked]
      nofun
    · obtain ⟨quotient, written⟩ := written
      rw [written]
      nofun
  · have joined := (kind_determined .empty Script.console (.ofAnswers []) lettersAndTruth).2
    refine (joined 2 "ab" front (.string "abtrue")).mpr ?_
    exact ⟨[⟨.none, some (.char 'a')⟩, ⟨.plus, some (.char 'b')⟩, ⟨.plus, none⟩,
      ⟨.plus, some (.bool true)⟩], rfl, by simp, rfl⟩

end Value
end Letterline
