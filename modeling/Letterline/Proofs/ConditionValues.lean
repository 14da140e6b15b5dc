/-
Module: Letterline.Proofs.ConditionValues
Purpose: Which values a condition evaluates, in what order, and what it makes of its members.
Trusted boundary: none
Main exports:
  Condition.evaluateWith, Value.watched, Condition.watched, Evaluation.Asks, Value.inputCount,
  Condition.evaluate_chain, Condition.evaluate_chain_of_chain, Condition.evaluates_values
-/
import Letterline.Proofs.Causality
import Letterline.Proofs.Concatenation
import Letterline.Proofs.Evaluation

namespace Letterline

/-!
The values of a condition are listed without evaluating it, and evaluating it does not look at
the list.  The two agree: a condition evaluates its values in the order of the list, and all of
them unless one fails, or a comparison of two.  No member of a chain is passed over, whatever
the truth of the members before it.

To say which values are evaluated, the recursion over a condition is parted from the
evaluation of its values.  With one that keeps a list of what it was given, it says what was
evaluated; with the ordinary one, it is the evaluation of the condition.
-/

/-! ### Conditions over any evaluation of values -/

namespace Condition

section EvaluateWith

variable {m : Type → Type} [Monad m] (result : Value → ExceptT RuntimeError m Scalar)

mutual

/-- The truth of a condition of which the values are evaluated by `result`. -/
def evaluateWith : Condition → ExceptT RuntimeError m Bool
  | .compare left comparator right => do
      let left ← result left
      let right ← result right
      ExceptT.mk (pure (left.compare comparator right))
  | .chain head rest => do
      let truth ← evaluateWith head
      evaluateLinksWith truth rest

/-- Joins the truth of further members to that of the members before. -/
def evaluateLinksWith (truth : Bool) :
    List (Connective × Condition) → ExceptT RuntimeError m Bool
  | [] => return truth
  | (connective, condition) :: rest => do
      let next ← evaluateWith condition
      evaluateLinksWith (connective.join truth next) rest

end

end EvaluateWith

end Condition

/-! ### Evaluations that are watched -/

/-- An evaluation that keeps a list of the values that it was given. -/
abbrev Watching (α : Type) : Type :=
  ExceptT RuntimeError (StateT (List Value) Dialogue) α

theorem Watching.run_bind {α β : Type} (watching : Watching α) (next : α → Watching β)
    (before : List Value) :
    (watching >>= next).run.run before =
      (watching.run.run before).bind fun
        | (.ok result, after) => (next result).run.run after
        | (.error error, after) => .done (.error error, after) := by
  change Dialogue.bind _ _ = _
  congr 1
  funext reached
  rcases reached with ⟨error | result, after⟩ <;> rfl

/-- The scalar of a value, which is put behind the values before. -/
def Value.watched (store : Store) (value : Value) : Watching Scalar :=
  .mk fun before => do
    let outcome ← (value.result store).run
    return (outcome, before ++ [value])

/-- The truth of a condition, or its fault, and the values that were evaluated for it. -/
def Condition.watched (store : Store) (condition : Condition) :
    Dialogue (Except RuntimeError Bool × List Value) :=
  (condition.evaluateWith (Value.watched store)).run.run []

/-- A watched evaluation is an evaluation, and it evaluates values in order: all of them, or those
up to a fault. -/
structure Watches {α : Type} (watching : Watching α) (evaluation : Evaluation α)
    (values : List Value) : Prop where
  evaluates (before : List Value) :
    (watching.run.run before).bind (fun reached => .done reached.1) = evaluation.run
  inOrder {before after : List Value} {outcome : Except RuntimeError α}
    (ends : (watching.run.run before).MayEnd (outcome, after)) :
    ∃ evaluated, after = before ++ evaluated ∧ evaluated <+: values ∧
      ∀ result, outcome = .ok result → evaluated = values

namespace Watches

variable {α β : Type}

theorem ofExcept (outcome : Except RuntimeError α) :
    Watches (ExceptT.mk (pure outcome)) (Evaluation.ofExcept outcome) [] where
  evaluates _ := rfl
  inOrder ends := by
    cases ends
    exact ⟨[], (List.append_nil _).symm, List.prefix_rfl, fun _ _ => rfl⟩

theorem bind {watching : Watching α} {evaluation : Evaluation α} {values others : List Value}
    {watchingNext : α → Watching β} {evaluationNext : α → Evaluation β}
    (first : Watches watching evaluation values)
    (next : ∀ result, Watches (watchingNext result) (evaluationNext result) others) :
    Watches (watching >>= watchingNext) (evaluation >>= evaluationNext) (values ++ others) where
  evaluates before := by
    rw [Watching.run_bind, Dialogue.bind_assoc, ExceptT.run_bind, Dialogue.bind_eq,
      ← first.evaluates before, Dialogue.bind_assoc]
    congr 1
    funext reached
    rcases reached with ⟨error | result, after⟩
    · rfl
    · exact (next result).evaluates after
  inOrder ends := by
    rw [Watching.run_bind, Dialogue.mayEnd_bind] at ends
    obtain ⟨⟨error | result, middle⟩, reached, goesOn⟩ := ends
    · obtain ⟨evaluated, rfl, begins, -⟩ := first.inOrder reached
      cases goesOn
      exact ⟨evaluated, rfl, begins.trans (List.prefix_append _ _), nofun⟩
    · obtain ⟨evaluated, rfl, -, whole⟩ := first.inOrder reached
      obtain ⟨further, rfl, begins, wholeFurther⟩ := (next result).inOrder goesOn
      rw [whole result rfl]
      refine ⟨values ++ further, List.append_assoc _ _ _, ?_, fun last ended => ?_⟩
      · exact (List.prefix_append_right_inj values).mpr begins
      · rw [wholeFurther last ended]

theorem value (store : Store) (value : Value) :
    Watches (value.watched store) (value.result store) [value] where
  evaluates _ := by
    change ((value.result store).run.bind _).bind _ = _
    rw [Dialogue.bind_assoc]
    exact Dialogue.bind_done _
  inOrder ends := by
    obtain ⟨outcome, -, reached⟩ := Dialogue.mayEnd_bind.mp ends
    cases reached
    exact ⟨[value], rfl, List.prefix_rfl, fun _ _ => rfl⟩

end Watches

namespace Condition

variable {store : Store}

mutual

/-- Watching a condition, its values are evaluated in order. -/
theorem watches : (condition : Condition) →
    Watches (condition.evaluateWith (Value.watched store)) (condition.evaluate store)
      condition.values
  | .compare left comparator right => by
      rw [evaluateWith, evaluate, values]
      exact .bind (.value store left) fun _ => .bind (.value store right) fun _ => .ofExcept _
  | .chain head rest => by
      rw [evaluateWith, evaluate, values]
      exact .bind (watches head) fun truth => watchesLinks truth rest

/-- So are those of the further members of a chain. -/
theorem watchesLinks (truth : Bool) : (links : List (Connective × Condition)) →
    Watches (evaluateLinksWith (Value.watched store) truth links)
      (evaluateLinks store truth links) (linkValues links)
  | [] => .ofExcept (.ok truth)
  | (connective, condition) :: rest => by
      rw [evaluateLinksWith, evaluateLinks, linkValues]
      exact .bind (watches condition) fun next => watchesLinks (connective.join truth next) rest

end

end Condition

/-! ### Requests for input -/

/-- The number of inputs among the operands of values that are not evaluated yet. -/
def Value.inputCount (values : List Value) : Nat :=
  ((values.filter fun value => !value.evaluated).flatMap Value.parts).countP
    (·.operand = .input)

theorem Value.inputCount_append (values others : List Value) :
    inputCount (values ++ others) = inputCount values + inputCount others := by
  rw [inputCount, List.filter_append, List.flatMap_append, List.countP_append]
  rfl

namespace Evaluation

variable {α β : Type}

/-- Where an evaluation has a result, it asks for a number of inputs, whatever is answered. -/
def Asks (evaluation : Evaluation α) (count : Nat) : Prop :=
  ∀ (σ : Type) (console : Console σ) (state : σ) (result : α),
    evaluation.outcome console state = .ok result →
      requestCount (evaluation.run.exchanges console state) = count

namespace Asks

theorem ofExcept (outcome : Except RuntimeError α) : (ofExcept outcome).Asks 0 :=
  fun _ _ _ _ _ => rfl

theorem ask : ask.Asks 1 :=
  fun _ _ _ _ _ => rfl

theorem bind {first : Evaluation α} {next : α → Evaluation β} {count further : Nat}
    (asksFirst : first.Asks count) (asksNext : ∀ result, (next result).Asks further) :
    (first >>= next).Asks (count + further) := by
  intro σ console state last ended
  rcases ran : first.run.run console state with ⟨error | result, after⟩
  · rw [outcome_bind_of_error ran] at ended
    cases ended
  · rw [outcome_bind_of_ok ran] at ended
    rw [ExceptT.run_bind, Dialogue.bind_eq, Dialogue.exchanges_bind, requestCount_append, ran,
      asksFirst σ console state result (congrArg Prod.fst ran)]
    exact congrArg (count + ·) (asksNext result σ console after last ended)

end Asks

end Evaluation

theorem Operand.asks_resolve (store : Store) (operand : Operand) :
    (operand.resolve store).Asks (if operand = .input then 1 else 0) := by
  cases operand with
  | literal scalar => exact .ofExcept (.ok (some scalar))
  | «variable» name =>
      rw [resolve]
      split
      · exact .ofExcept (.error _)
      · split
        · exact .ofExcept (.error _)
        · exact .ofExcept (.ok _)
  | input => exact .bind .ask fun line => .ofExcept (.ok (Scalar.ofInput? line))

namespace Value

variable {store : Store}

theorem asks_fold (accumulated : Option Scalar) (parts : List Part) :
    (fold store accumulated parts).Asks (parts.countP (·.operand = .input)) := by
  induction parts generalizing accumulated with
  | nil => exact .ofExcept (.ok accumulated)
  | cons part rest inductionHypothesis =>
      rw [fold, List.countP_cons, Nat.add_comm]
      have first := part.operand.asks_resolve store
      have joined (operand : Option Scalar) := Evaluation.Asks.bind
        (.ofExcept (Scalar.absorb accumulated operand part.operator)) inductionHypothesis
      simpa using first.bind joined

/-- A value that has a result asked for its inputs, unless it had been evaluated before. -/
theorem asks_result (value : Value) : (value.result store).Asks (inputCount [value]) := by
  cases marked : value.evaluated with
  | true =>
      have none : inputCount [value] = 0 := by simp [inputCount, marked]
      rw [none, result, if_pos marked]
      exact .ofExcept (.ok _)
  | false =>
      have all : inputCount [value] = value.parts.countP (·.operand = .input) := by
        simp [inputCount, marked]
      rw [all, result, if_neg (Bool.eq_false_iff.mp marked)]
      exact .bind (asks_fold none value.parts) fun accumulated => .ofExcept (.ok _)

end Value

namespace Condition

variable {store : Store}

mutual

/-- A condition that has a truth asked for all inputs of its values. -/
theorem asks_evaluate : (condition : Condition) →
    (condition.evaluate store).Asks (Value.inputCount condition.values)
  | .compare left comparator right => by
      rw [evaluate, values, ← List.singleton_append, Value.inputCount_append]
      exact .bind left.asks_result fun _ => .bind right.asks_result fun _ => .ofExcept _
  | .chain head rest => by
      rw [evaluate, values, Value.inputCount_append]
      exact .bind (asks_evaluate head) fun truth => asks_evaluateLinks truth rest

/-- So do the further members of a chain. -/
theorem asks_evaluateLinks (truth : Bool) : (links : List (Connective × Condition)) →
    (evaluateLinks store truth links).Asks (Value.inputCount (linkValues links))
  | [] => .ofExcept (.ok truth)
  | (connective, condition) :: rest => by
      rw [evaluateLinks, linkValues, Value.inputCount_append]
      exact .bind (asks_evaluate condition) fun next =>
        asks_evaluateLinks (connective.join truth next) rest

end

/-! ### Chains as folds -/

/-- The truth of members that are joined from left to right. -/
def joined (truth : Bool) (members : List (Connective × Bool)) : Bool :=
  members.foldl (fun truth member => member.1.join truth member.2) truth

/-- Further members are evaluated all before they are joined. -/
theorem evaluateLinks_eq (truth : Bool) (links : List (Connective × Condition)) :
    evaluateLinks store truth links = do
      let members ← links.mapM fun link => do return (link.1, ← link.2.evaluate store)
      return joined truth members := by
  induction links generalizing truth with
  | nil => rfl
  | cons link rest inductionHypothesis =>
      rw [evaluateLinks, List.mapM_cons]
      simp only [inductionHypothesis, bind_assoc, pure_bind]
      rfl

/-- A chain evaluates all its members, and then joins their truths from left to right. -/
theorem evaluate_chain (head : Condition) (rest : List (Connective × Condition)) :
    (Condition.chain head rest).evaluate store = do
      let truth ← head.evaluate store
      let members ← rest.mapM fun link => do return (link.1, ← link.2.evaluate store)
      return joined truth members := by
  rw [evaluate]
  simp only [evaluateLinks_eq]

theorem evaluateLinks_append (truth : Bool) (links further : List (Connective × Condition)) :
    evaluateLinks store truth (links ++ further) =
      evaluateLinks store truth links >>= fun truth => evaluateLinks store truth further := by
  induction links generalizing truth with
  | nil => rw [evaluateLinks, pure_bind]; rfl
  | cons link rest inductionHypothesis =>
      rw [List.cons_append, evaluateLinks, evaluateLinks, bind_assoc]
      simp only [inductionHypothesis]

/-- A chain that begins with a chain is one chain. -/
theorem evaluate_chain_of_chain (head : Condition)
    (rest further : List (Connective × Condition)) :
    (Condition.chain (.chain head rest) further).evaluate store =
      (Condition.chain head (rest ++ further)).evaluate store := by
  rw [evaluate, evaluate, evaluate, bind_assoc]
  simp only [evaluateLinks_append]

/-- Watched on a console, a condition comes to what it comes to, and its values were evaluated in
order. -/
theorem run_watched {σ : Type} (console : Console σ) (state : σ) (condition : Condition) :
    ∃ evaluated,
      (condition.watched store).run console state =
          (((condition.evaluate store).outcome console state, evaluated),
            ((condition.evaluate store).run.run console state).2) ∧
        evaluated <+: condition.values ∧
        ∀ truth, (condition.evaluate store).outcome console state = .ok truth →
          evaluated = condition.values := by
  have watching : Watches _ (condition.evaluate store) condition.values := condition.watches
  have same : (condition.evaluate store).run.run console state =
      (((condition.watched store).run console state).1.1,
        ((condition.watched store).run console state).2) := by
    rw [← watching.evaluates [], Dialogue.run_bind]
    rfl
  obtain ⟨evaluated, all, begins, whole⟩ :=
    watching.inOrder (Dialogue.mayEnd_run console (condition.watched store) state)
  rw [List.nil_append] at all
  refine ⟨evaluated, ?_, begins, fun truth ended => whole truth ?_⟩
  · rw [Evaluation.outcome, same, ← all]
  · rw [← ended, Evaluation.outcome, same]

/-- A condition evaluates its values in the order in which they are listed, those before a fault
or all of them.  If it comes to a truth, it asked for each input of the values that had not been
evaluated, and nothing was passed over: the truth of a chain is that of its members, joined from
left to right.  So a chain that begins with a chain is the chain of the members of both. -/
theorem evaluates_values (store : Store) :
    (∀ {σ : Type} (console : Console σ) (state : σ) (condition : Condition),
      ∃ evaluated,
        (condition.watched store).run console state =
            (((condition.evaluate store).outcome console state, evaluated),
              ((condition.evaluate store).run.run console state).2) ∧
          evaluated <+: condition.values ∧
          ∀ truth, (condition.evaluate store).outcome console state = .ok truth →
            evaluated = condition.values ∧
              requestCount ((condition.evaluate store).run.exchanges console state) =
                Value.inputCount condition.values) ∧
    (∀ head rest, (Condition.chain head rest).evaluate store = do
      let truth ← head.evaluate store
      let members ← rest.mapM fun link => do return (link.1, ← link.2.evaluate store)
      return joined truth members) ∧
    ∀ head rest further,
      (Condition.chain (.chain head rest) further).evaluate store =
        (Condition.chain head (rest ++ further)).evaluate store := by
  refine ⟨fun console state condition => ?_, evaluate_chain, evaluate_chain_of_chain⟩
  obtain ⟨evaluated, watched, begins, whole⟩ := run_watched console state condition
  exact ⟨evaluated, watched, begins, fun truth ended =>
    ⟨whole truth ended, condition.asks_evaluate _ console state truth ended⟩⟩

/-- An input behind `and` is asked for, although what stands before it is false. -/
example : requestCount (((Condition.chain
    (.compare (.ofScalar (.string "a")) .equal (.ofScalar (.string "b")))
    [(.and, .compare (.ofParts [⟨.none, .input⟩]) .equal (.ofScalar (.string "yes")))]).evaluate
      .empty).run.exchanges Script.console (.ofAnswers ["yes"])) = 1 := by
  rfl

end Condition

end Letterline
