/-
Module: Letterline.Proofs.Simulation
Purpose: Runs that keep in step: from related stores they say the same and lead to related
  stores.
Trusted boundary: none
Main exports:
  Dialogue.InStep, Dialogue.InStep.bind, Dialogue.InStep.iterate, Dialogue.InStep.run,
  Ending.Matches, Evaluation.inStep_bind, Execution.InStep, Session.keeps_in_step
-/
import Letterline.Proofs.Dialogue
import Letterline.Proofs.Limit

namespace Letterline

/-!
Two dialogues are in step if they ask and say the same as long as they are answered alike, and
end with related results.  A console cannot tell them apart.  That two executions keep in step
from all stores that are related is shown part by part, as the executions are put together, so
a statement about two runs of a program needs no more than how its simplest instructions act
on the relation.
-/

/-! ### Dialogues in step -/

namespace Dialogue

/-- Two dialogues say the same, whatever they are answered, and end with related results. -/
inductive InStep {α β : Type} (Related : α → β → Prop) : Dialogue α → Dialogue β → Prop where
  | done {result : α} {other : β} (related : Related result other) :
      InStep Related (.done result) (.done other)
  | ask {next : Except String String → Dialogue α} {other : Except String String → Dialogue β}
      (answered : ∀ answer, InStep Related (next answer) (other answer)) :
      InStep Related (.ask next) (.ask other)
  | tell (text : String) {next : Except String Unit → Dialogue α}
      {other : Except String Unit → Dialogue β}
      (answered : ∀ answer, InStep Related (next answer) (other answer)) :
      InStep Related (.tell text next) (.tell text other)
  | flush {next : Except String Unit → Dialogue α} {other : Except String Unit → Dialogue β}
      (answered : ∀ answer, InStep Related (next answer) (other answer)) :
      InStep Related (.flush next) (.flush other)

variable {α β γ δ σ τ : Type}

/-- Turns that decide alike whether another one follows. -/
inductive Turn.Matches (Related : σ → τ → Prop) (RelatedAfter : β → γ → Prop) :
    Turn σ β → Turn τ γ → Prop where
  | again {state : σ} {other : τ} (related : Related state other) :
      Matches Related RelatedAfter (.again state) (.again other)
  | stop {result : β} {other : γ} (related : RelatedAfter result other) :
      Matches Related RelatedAfter (.stop result) (.stop other)

namespace InStep

/-- A dialogue is in step with itself if every result that it may end with is related to
itself. -/
theorem refl {Related : α → α → Prop} {dialogue : Dialogue α}
    (reflexive : ∀ result, dialogue.MayEnd result → Related result result) :
    InStep Related dialogue dialogue := by
  induction dialogue with
  | done result => exact .done (reflexive result rfl)
  | ask next inductionHypothesis =>
      exact .ask fun answer => inductionHypothesis answer fun result ends =>
        reflexive result ⟨answer, ends⟩
  | tell text next inductionHypothesis =>
      exact .tell text fun answer => inductionHypothesis answer fun result ends =>
        reflexive result ⟨answer, ends⟩
  | flush next inductionHypothesis =>
      exact .flush fun answer => inductionHypothesis answer fun result ends =>
        reflexive result ⟨answer, ends⟩

/-- Dialogues that go on from related results in step are in step. -/
theorem bind {Related : α → β → Prop} {RelatedAfter : γ → δ → Prop} {first : Dialogue α}
    {other : Dialogue β} {f : α → Dialogue γ} {g : β → Dialogue δ}
    (inStep : InStep Related first other)
    (goesOn : ∀ {result otherResult}, Related result otherResult →
      InStep RelatedAfter (f result) (g otherResult)) :
    InStep RelatedAfter (first.bind f) (other.bind g) := by
  induction inStep with
  | done related => exact goesOn related
  | ask _ inductionHypothesis => exact .ask inductionHypothesis
  | tell text _ inductionHypothesis => exact .tell text inductionHypothesis
  | flush _ inductionHypothesis => exact .flush inductionHypothesis

/-- Repetitions are in step if their turns are. -/
theorem iterate {Related : σ → τ → Prop} {RelatedAfter : β → γ → Prop}
    {turn : σ → Dialogue (Turn σ β)} {otherTurn : τ → Dialogue (Turn τ γ)} {giveUp : σ → β}
    {otherGiveUp : τ → γ}
    (turns : ∀ {state other}, Related state other →
      InStep (Turn.Matches Related RelatedAfter) (turn state) (otherTurn other))
    (ends : ∀ {state other}, Related state other →
      RelatedAfter (giveUp state) (otherGiveUp other)) :
    ∀ (limit : Nat) {state : σ} {other : τ}, Related state other →
      InStep RelatedAfter (Dialogue.iterate turn giveUp limit state)
        (Dialogue.iterate otherTurn otherGiveUp limit other)
  | 0, _, _, related => .done (ends related)
  | limit + 1, state, other, related => by
      rw [iterate_succ, iterate_succ]
      refine (turns related).bind fun taken => ?_
      cases taken with
      | again next => exact iterate turns ends limit next
      | stop result => exact .done result

/-- On one console dialogues in step pass the same and end with related results. -/
theorem run {Related : α → β → Prop} {first : Dialogue α} {other : Dialogue β}
    (inStep : InStep Related first other) (console : Console σ) (state : σ) :
    Related (first.run console state).1 (other.run console state).1 ∧
      (first.run console state).2 = (other.run console state).2 ∧
      first.exchanges console state = other.exchanges console state := by
  induction inStep generalizing state with
  | done related => exact ⟨related, rfl, rfl⟩
  | ask _ inductionHypothesis =>
      obtain ⟨related, same, record⟩ :=
        inductionHypothesis (console.answer state).1 (console.answer state).2
      exact ⟨related, same, congrArg (_ :: ·) record⟩
  | tell text _ inductionHypothesis =>
      obtain ⟨related, same, record⟩ :=
        inductionHypothesis (console.write text state).1 (console.write text state).2
      exact ⟨related, same, congrArg (_ :: ·) record⟩
  | flush _ inductionHypothesis =>
      obtain ⟨related, same, record⟩ :=
        inductionHypothesis (console.flush state).1 (console.flush state).2
      exact ⟨related, same, congrArg (_ :: ·) record⟩

end InStep
end Dialogue

/-! ### Executions in step -/

/-- Endings of one kind, with faults that are related. -/
inductive Ending.Matches (Fault : RuntimeError → RuntimeError → Prop) : Ending → Ending → Prop where
  | proceeds : Matches Fault .proceeds .proceeds
  | exits : Matches Fault .exits .exits
  | fails {error other : RuntimeError} (related : Fault error other) :
      Matches Fault (.fails error) (.fails other)
  | unfinished : Matches Fault .unfinished .unfinished

/-- Endings that match with equal faults are equal. -/
theorem Ending.Matches.eq {ending other : Ending} (alike : Ending.Matches Eq ending other) :
    ending = other := by
  cases alike with
  | fails same => rw [same]
  | _ => rfl

/-- A run is unfinished if the other one is. -/
theorem Ending.Matches.unfinished_iff {Fault : RuntimeError → RuntimeError → Prop}
    {ending other : Ending} (alike : Ending.Matches Fault ending other) :
    ending = .unfinished ↔ other = .unfinished := by
  cases alike <;> simp

/-- Results of evaluations: values that are related, or faults that are. -/
inductive Evaluation.Matches {α β : Type} (Fault : RuntimeError → RuntimeError → Prop)
    (Same : α → β → Prop) : Except RuntimeError α → Except RuntimeError β → Prop where
  | ok {result : α} {other : β} (same : Same result other) :
      Matches Fault Same (.ok result) (.ok other)
  | error {error other : RuntimeError} (related : Fault error other) :
      Matches Fault Same (.error error) (.error other)

/-- An evaluation is in step with itself. -/
theorem Evaluation.inStep_refl {α : Type} {Fault : RuntimeError → RuntimeError → Prop}
    {Same : α → α → Prop} {evaluation : Evaluation α} (reflexive : ∀ error, Fault error error)
    (same : ∀ result, evaluation.run.MayEnd (.ok result) → Same result result) :
    evaluation.run.InStep (Matches Fault Same) evaluation.run := by
  refine .refl fun outcome ends => ?_
  cases outcome with
  | ok result => exact .ok (same result ends)
  | error error => exact .error (reflexive error)

/-- Equal evaluations are in step. -/
theorem Evaluation.inStep_of_eq {α : Type} {Fault : RuntimeError → RuntimeError → Prop}
    {evaluation other : Evaluation α} (reflexive : ∀ error, Fault error error)
    (same : evaluation = other) : evaluation.run.InStep (Matches Fault Eq) other.run :=
  same ▸ inStep_refl reflexive fun _ _ => rfl

/-- Evaluations that go on from results that match are in step. -/
theorem Evaluation.inStep_bind {α β γ δ : Type} {Fault : RuntimeError → RuntimeError → Prop}
    {Same : α → β → Prop} {SameAfter : γ → δ → Prop} {first : Evaluation α}
    {other : Evaluation β} {f : α → Evaluation γ} {g : β → Evaluation δ}
    (inStep : first.run.InStep (Matches Fault Same) other.run)
    (goesOn : ∀ {result otherResult}, Same result otherResult →
      (f result).run.InStep (Matches Fault SameAfter) (g otherResult).run) :
    (first >>= f).run.InStep (Matches Fault SameAfter) (other >>= g).run := by
  rw [ExceptT.run_bind, ExceptT.run_bind]
  refine inStep.bind fun outcomes => ?_
  cases outcomes with
  | ok same => exact goesOn same
  | error related => exact .done (.error related)

/-- A relation between stores that lasts when a frame is opened or closed in both. -/
structure Store.FrameStable (Related : Store → Store → Prop) : Prop where
  push : ∀ {store other : Store}, Related store other → Related store.push other.push
  pop : ∀ {store other : Store}, Related store other → Related store.pop other.pop

namespace Execution

variable {α : Type} {Fault : RuntimeError → RuntimeError → Prop}
  {Related : Store → Store → Prop} {run other next otherNext : Execution}

/-- Where two executions lead: to endings that match, with stores that are related. -/
structure Matches (Fault : RuntimeError → RuntimeError → Prop) (Related : Store → Store → Prop)
    (reached other : Ending × Store) : Prop where
  ending : Ending.Matches Fault reached.1 other.1
  store : Related reached.2 other.2

/-- From related stores two executions are in step, and lead to related stores. -/
structure InStep (Fault : RuntimeError → RuntimeError → Prop) (Related : Store → Store → Prop)
    (run other : Execution) : Prop where
  on : ∀ store otherStore, Related store otherStore →
    (run store).InStep (Matches Fault Related) (other otherStore)

namespace InStep

theorem still {ending otherEnding : Ending} (alike : Ending.Matches Fault ending otherEnding) :
    InStep Fault Related (fun store => .done (ending, store))
      (fun store => .done (otherEnding, store)) :=
  ⟨fun _ _ related => .done ⟨alike, related⟩⟩

/-- A change of both stores keeps in step if it keeps the relation. -/
theorem change {change otherChange : Store → Store}
    (kept : ∀ store otherStore, Related store otherStore →
      Related (change store) (otherChange otherStore)) :
    InStep Fault Related (fun store => .done (.proceeds, change store))
      (fun store => .done (.proceeds, otherChange store)) :=
  ⟨fun store otherStore related => .done ⟨.proceeds, kept store otherStore related⟩⟩

theorem print (output : ∀ reason, Fault (.output reason) (.output reason)) (text : String) :
    InStep Fault Related (Execution.print text) (Execution.print text) := by
  have written : (writeLine text).InStep Eq (writeLine text) := .refl fun _ _ => rfl
  refine ⟨fun store otherStore related => written.bind fun {answer _} same => ?_⟩
  subst same
  cases answer with
  | ok _ => exact .done ⟨.proceeds, related⟩
  | error reason => exact .done ⟨.fails (output reason), related⟩

theorem inFrame (stable : Store.FrameStable Related) (inside : InStep Fault Related run other) :
    InStep Fault Related (Execution.inFrame run) (Execution.inFrame other) :=
  ⟨fun _ _ related => (inside.on _ _ (stable.push related)).bind fun reached =>
    .done ⟨reached.ending, stable.pop reached.store⟩⟩

theorem andThen (first : InStep Fault Related run other)
    (second : InStep Fault Related next otherNext) :
    InStep Fault Related (Execution.andThen run next) (Execution.andThen other otherNext) := by
  refine ⟨fun store otherStore related =>
    (first.on store otherStore related).bind fun {reached otherReached} both => ?_⟩
  rcases reached with ⟨ending, after⟩
  rcases otherReached with ⟨otherEnding, otherAfter⟩
  obtain ⟨endings, stores⟩ := both
  cases endings with
  | proceeds => exact second.on after otherAfter stores
  | exits => exact .done ⟨.exits, stores⟩
  | fails faults => exact .done ⟨.fails faults, stores⟩
  | unfinished => exact .done ⟨.unfinished, stores⟩

theorem given {β : Type} {Same : α → β → Prop} {evaluation : Store → Evaluation α}
    {otherEvaluation : Store → Evaluation β} {body : α → Execution} {otherBody : β → Execution}
    (evaluated : ∀ store otherStore, Related store otherStore →
      (evaluation store).run.InStep (Evaluation.Matches Fault Same)
        (otherEvaluation otherStore).run)
    (inside : ∀ result otherResult, Same result otherResult →
      InStep Fault Related (body result) (otherBody otherResult)) :
    InStep Fault Related (Execution.given evaluation body)
      (Execution.given otherEvaluation otherBody) := by
  refine ⟨fun store otherStore related =>
    (evaluated store otherStore related).bind fun outcomes => ?_⟩
  cases outcomes with
  | ok same => exact (inside _ _ same).on store otherStore related
  | error faults => exact .done ⟨.fails faults, related⟩

/-- An evaluation that does not tell related stores apart keeps in step, if the bodies do for
the results that it may have. -/
theorem given_of_eq {evaluation : Store → Evaluation α} {body otherBody : α → Execution}
    (reflexive : ∀ error, Fault error error)
    (same : ∀ store otherStore, Related store otherStore →
      evaluation store = evaluation otherStore)
    (inside : ∀ {store result}, (evaluation store).run.MayEnd (.ok result) →
      InStep Fault Related (body result) (otherBody result)) :
    InStep Fault Related (Execution.given evaluation body)
      (Execution.given evaluation otherBody) := by
  have inStep (store otherStore : Store) (related : Related store otherStore) :
      (evaluation store).run.InStep
        (Evaluation.Matches Fault fun result other =>
          InStep Fault Related (body result) (otherBody other)) (evaluation otherStore).run :=
    same store otherStore related ▸ Evaluation.inStep_refl reflexive fun _ ends => inside ends
  exact given inStep fun _ _ together => together

/-- Turns of two loops are in step if their conditions and bodies are. -/
theorem turn {condition otherCondition : Store → Evaluation Bool} {store otherStore : Store}
    (evaluated : (condition store).run.InStep (Evaluation.Matches Fault Eq)
      (otherCondition otherStore).run)
    (inside : InStep Fault Related run other) (related : Related store otherStore) :
    (Execution.turn condition run store).InStep
      (Dialogue.Turn.Matches Related (Matches Fault Related))
      (Execution.turn otherCondition other otherStore) := by
  refine evaluated.bind fun outcomes => ?_
  cases outcomes with
  | error faults => exact .done (.stop ⟨.fails faults, related⟩)
  | @ok truth _ same =>
      subst same
      cases truth with
      | false => exact .done (.stop ⟨.proceeds, related⟩)
      | true =>
          refine (inside.on store otherStore related).bind fun {reached otherReached} both => ?_
          rcases reached with ⟨ending, after⟩
          rcases otherReached with ⟨otherEnding, otherAfter⟩
          obtain ⟨endings, stores⟩ := both
          cases endings with
          | proceeds => exact .done (.again stores)
          | exits => exact .done (.stop ⟨.exits, stores⟩)
          | fails faults => exact .done (.stop ⟨.fails faults, stores⟩)
          | unfinished => exact .done (.stop ⟨.unfinished, stores⟩)

theorem repeatWhile {condition otherCondition : Store → Evaluation Bool}
    (evaluated : ∀ store otherStore, Related store otherStore →
      (condition store).run.InStep (Evaluation.Matches Fault Eq) (otherCondition otherStore).run)
    (inside : InStep Fault Related run other) (limit : Nat) :
    InStep Fault Related (Execution.repeatWhile limit condition run)
      (Execution.repeatWhile limit otherCondition other) := by
  refine ⟨fun store otherStore related =>
    Dialogue.InStep.iterate (fun {state otherState} both => ?_) (fun both => ?_) limit related⟩
  · exact turn (evaluated state otherState both) inside both
  · exact ⟨.unfinished, both⟩

end InStep
end Execution

/-- Programs keep in step if their instructions do. -/
theorem Program.inStep_execute {Fault : RuntimeError → RuntimeError → Prop}
    {Related : Store → Store → Prop} {limit : Nat} {program other : Program}
    (output : ∀ reason, Fault (.output reason) (.output reason))
    (instructions : Execution.InStep Fault Related
      (Instruction.executeAll limit program.instructions)
      (Instruction.executeAll limit other.instructions)) :
    Execution.InStep Fault Related (program.execute limit) (other.execute limit) := by
  refine ⟨fun store otherStore related =>
    (instructions.on store otherStore related).bind fun {reached otherReached} both => ?_⟩
  rcases reached with ⟨ending, after⟩
  rcases otherReached with ⟨otherEnding, otherAfter⟩
  obtain ⟨endings, stores⟩ := both
  cases endings with
  | fails faults => exact .done ⟨.fails faults, stores⟩
  | unfinished => exact .done ⟨.unfinished, stores⟩
  | proceeds =>
      refine .flush fun answer => ?_
      cases answer with
      | ok _ => exact .done ⟨.proceeds, stores⟩
      | error reason => exact .done ⟨.fails (output reason), stores⟩
  | exits =>
      refine .flush fun answer => ?_
      cases answer with
      | ok _ => exact .done ⟨.exits, stores⟩
      | error reason => exact .done ⟨.fails (output reason), stores⟩

/-! ### Sessions in step -/

namespace Session

variable {σ : Type} {console : Console σ} {Fault : RuntimeError → RuntimeError → Prop}
  {Related : Store → Store → Prop} {run other : Nat → Execution} {here there : Session σ}

/-- Two sessions with related stores and the console in one state. -/
structure Beside (Related : Store → Store → Prop) (here there : Session σ) : Prop where
  store : Related here.store there.store
  world : here.world = there.world

/-- Executions in step are held alike, with the same exchanges. -/
theorem hold_inStep {first second : Execution} (inStep : first.InStep Fault Related second)
    (beside : here.Beside Related there) :
    Ending.Matches Fault (here.hold console first).1 (there.hold console second).1 ∧
      (here.hold console first).2.Beside Related (there.hold console second).2 ∧
      here.exchanges console first = there.exchanges console second := by
  rcases here with ⟨store, world⟩
  rcases there with ⟨otherStore, otherWorld⟩
  obtain ⟨stores, rfl⟩ := beside
  obtain ⟨reached, worlds, record⟩ := (inStep.on store otherStore stores).run console world
  exact ⟨reached.ending, ⟨reached.store, worlds⟩, record⟩

/-- Runs that are in step under every limit both go on for ever, or both end, after the same
exchanges and beside each other. -/
theorem keeps_in_step
    (stable : ∀ {limit more : Nat}, limit ≤ more → (run limit).Agrees (run more))
    (otherStable : ∀ {limit more : Nat}, limit ≤ more → (other limit).Agrees (other more))
    (inStep : ∀ limit, (run limit).InStep Fault Related (other limit))
    (beside : here.Beside Related there) :
    (here.Diverges console run ∧ there.Diverges console other) ∨
      ∃ ending otherEnding after otherAfter record,
        here.Ends console run ending after record ∧
        there.Ends console other otherEnding otherAfter record ∧
        Ending.Matches Fault ending otherEnding ∧ after.Beside Related otherAfter := by
  by_cases diverges : here.Diverges console run
  · refine Or.inl ⟨diverges, fun limit => ?_⟩
    obtain ⟨endings, _, _⟩ := hold_inStep (inStep limit) beside
    exact endings.unfinished_iff.mp (diverges limit)
  · obtain ⟨enough, finished⟩ := Classical.not_forall.mp diverges
    obtain ⟨endings, reached, record⟩ := hold_inStep (inStep enough) beside
    have otherFinished := mt endings.unfinished_iff.mpr finished
    have ends := ends_of_finished otherStable otherFinished
    rw [← record] at ends
    exact Or.inr ⟨_, _, _, _, _, ends_of_finished stable finished, ends, endings, reached⟩

end Session

end Letterline
