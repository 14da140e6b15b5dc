/-
Module: Letterline.Proofs.Limit
Purpose: Runs under higher and higher limits: how one ends, or that it never does.
Trusted boundary: none
Main exports:
  Exchange, Dialogue.exchanges, Dialogue.Agrees.bind, Execution.Agrees,
  Instruction.agrees_execute, Program.agrees_execute, Session.Ends, Session.Diverges,
  Session.exists_ends_iff, Session.Passes, Session.passes_iff, Session.Alike
-/
import Letterline.Program.Execution
import Letterline.Proofs.Dialogue
import Letterline.Session

namespace Letterline

/-!
The limit on the turns of a loop makes every run finite.  It is no part of what a program
means: a run that ends under one limit ends in the same way under every higher one, on
every console.  So a run either ends, from some limit on always alike, or it is unfinished
under every limit, which is what going on for ever means here.
-/

/-! ### What passes between a dialogue and a console -/

/-- One exchange with a console. -/
inductive Exchange where
  | asked (answer : Except String String)
  | told (text : String) (answer : Except String Unit)
  | flushed (answer : Except String Unit)

namespace Dialogue

variable {α σ : Type}

/-- The exchanges of a dialogue that is held with a console. -/
def exchanges (console : Console σ) : Dialogue α → σ → List Exchange
  | .done _, _ => []
  | .ask next, state =>
      let (answer, state) := console.answer state
      .asked answer :: (next answer).exchanges console state
  | .tell text next, state =>
      let (answer, state) := console.write text state
      .told text answer :: (next answer).exchanges console state
  | .flush next, state =>
      let (answer, state) := console.flush state
      .flushed answer :: (next answer).exchanges console state

end Dialogue

/-- The console that answers alike and keeps a record. -/
def Console.recording {σ : Type} (console : Console σ) : Console (σ × List Exchange) where
  answer := fun (state, record) =>
    let (answer, state) := console.answer state
    (answer, state, record ++ [.asked answer])
  write text := fun (state, record) =>
    let (answer, state) := console.write text state
    (answer, state, record ++ [.told text answer])
  flush := fun (state, record) =>
    let (answer, state) := console.flush state
    (answer, state, record ++ [.flushed answer])

/-- The record holds the exchanges, and nothing else is different. -/
theorem Dialogue.run_recording {α σ : Type} (console : Console σ) (dialogue : Dialogue α)
    (state : σ) (record : List Exchange) :
    dialogue.run console.recording (state, record) =
      ((dialogue.run console state).1, (dialogue.run console state).2,
        record ++ dialogue.exchanges console state) := by
  induction dialogue generalizing state record with
  | done result => simp [run, exchanges]
  | ask next inductionHypothesis =>
      exact (inductionHypothesis _ _ _).trans (by simp [run, exchanges])
  | tell text next inductionHypothesis =>
      exact (inductionHypothesis _ _ _).trans (by simp [run, exchanges])
  | flush next inductionHypothesis =>
      exact (inductionHypothesis _ _ _).trans (by simp [run, exchanges])

/-! ### Executions that end alike -/

namespace Dialogue

variable {α β σ : Type}

/-- The higher dialogue goes as the lower one does, up to where that one ends unfinished. -/
inductive Agrees (Unfinished : α → Prop) : Dialogue α → Dialogue α → Prop where
  | done (result : α) : Agrees Unfinished (.done result) (.done result)
  | gaveUp {result : α} (unfinished : Unfinished result) (higher : Dialogue α) :
      Agrees Unfinished (.done result) higher
  | ask {lower higher : Except String String → Dialogue α}
      (each : ∀ answer, Agrees Unfinished (lower answer) (higher answer)) :
      Agrees Unfinished (.ask lower) (.ask higher)
  | tell (text : String) {lower higher : Except String Unit → Dialogue α}
      (each : ∀ answer, Agrees Unfinished (lower answer) (higher answer)) :
      Agrees Unfinished (.tell text lower) (.tell text higher)
  | flush {lower higher : Except String Unit → Dialogue α}
      (each : ∀ answer, Agrees Unfinished (lower answer) (higher answer)) :
      Agrees Unfinished (.flush lower) (.flush higher)

theorem Agrees.refl {Unfinished : α → Prop} : ∀ dialogue : Dialogue α,
    Agrees Unfinished dialogue dialogue
  | .done result => .done result
  | .ask next => .ask fun answer => .refl (next answer)
  | .tell text next => .tell text fun answer => .refl (next answer)
  | .flush next => .flush fun answer => .refl (next answer)

/-- On a console on which the lower dialogue does not end unfinished, the higher one ends as it
does. -/
theorem Agrees.run_eq {Unfinished : α → Prop} {lower higher : Dialogue α}
    (agrees : Agrees Unfinished lower higher) (console : Console σ) (state : σ)
    (finished : ¬ Unfinished (lower.run console state).1) :
    higher.run console state = lower.run console state := by
  induction agrees generalizing state with
  | done result => rfl
  | gaveUp unfinished higher => exact absurd unfinished finished
  | ask each inductionHypothesis => exact inductionHypothesis _ _ finished
  | tell text each inductionHypothesis => exact inductionHypothesis _ _ finished
  | flush each inductionHypothesis => exact inductionHypothesis _ _ finished

/-- On every console, the exchanges of the higher dialogue begin with those of the lower one. -/
theorem Agrees.exchanges_begin {Unfinished : α → Prop} {lower higher : Dialogue α}
    (agrees : Agrees Unfinished lower higher) (console : Console σ) (state : σ) :
    lower.exchanges console state <+: higher.exchanges console state := by
  induction agrees generalizing state with
  | done result => exact List.prefix_rfl
  | gaveUp unfinished higher => exact List.nil_prefix
  | ask each inductionHypothesis =>
      exact (List.prefix_cons_inj _).mpr (inductionHypothesis _ _)
  | tell text each inductionHypothesis =>
      exact (List.prefix_cons_inj _).mpr (inductionHypothesis _ _)
  | flush each inductionHypothesis =>
      exact (List.prefix_cons_inj _).mpr (inductionHypothesis _ _)

/-- Dialogues that go on agree if their parts do, and if an unfinished first part leaves the
whole unfinished. -/
theorem Agrees.bind {Unfinished : α → Prop} {UnfinishedAll : β → Prop}
    {lower higher : Dialogue α} {f g : α → Dialogue β} (first : Agrees Unfinished lower higher)
    (passedOn : ∀ result, Unfinished result →
      ∃ last, UnfinishedAll last ∧ f result = .done last)
    (second : ∀ result, Agrees UnfinishedAll (f result) (g result)) :
    Agrees UnfinishedAll (lower.bind f) (higher.bind g) := by
  induction first with
  | done result => exact second result
  | gaveUp unfinished higher =>
      obtain ⟨last, unfinishedAll, ends⟩ := passedOn _ unfinished
      rw [Dialogue.done_bind, ends]
      exact .gaveUp unfinishedAll _
  | ask each inductionHypothesis => exact .ask inductionHypothesis
  | tell text each inductionHypothesis => exact .tell text inductionHypothesis
  | flush each inductionHypothesis => exact .flush inductionHypothesis

/-- Dialogues that begin in the same way agree if they go on in ways that agree. -/
theorem Agrees.after {Unfinished : β → Prop} (dialogue : Dialogue α) {f g : α → Dialogue β}
    (second : ∀ result, Agrees Unfinished (f result) (g result)) :
    Agrees Unfinished (dialogue.bind f) (dialogue.bind g) := by
  have same : Agrees (fun _ => False) dialogue dialogue := .refl dialogue
  exact same.bind nofun second

end Dialogue

namespace Execution

/-- The higher execution ends as the lower one does, wherever that one ends. -/
structure Agrees (lower higher : Execution) : Prop where
  on : ∀ store, (lower store).Agrees (fun result => result.1 = .unfinished) (higher store)

variable {α : Type} {lower higher lowerNext higherNext : Execution}

theorem Agrees.refl (execution : Execution) : Agrees execution execution :=
  ⟨fun _ => .refl _⟩

theorem Agrees.inFrame (agrees : Agrees lower higher) :
    Agrees (inFrame lower) (inFrame higher) := by
  refine ⟨fun store => (agrees.on store.push).bind ?_ fun _ => .refl _⟩
  rintro ⟨ending, inner⟩ rfl
  exact ⟨(.unfinished, inner.pop), rfl, rfl⟩

theorem Agrees.andThen (first : Agrees lower higher) (second : Agrees lowerNext higherNext) :
    Agrees (andThen lower lowerNext) (andThen higher higherNext) := by
  refine ⟨fun store => (first.on store).bind ?_ ?_⟩
  · rintro ⟨ending, after⟩ rfl
    exact ⟨(.unfinished, after), rfl, rfl⟩
  · rintro ⟨ending, after⟩
    cases ending with
    | proceeds => exact second.on after
    | _ => exact .refl _

theorem Agrees.given {evaluation : Store → Evaluation α} {lower higher : α → Execution}
    (agrees : ∀ result, Agrees (lower result) (higher result)) :
    Agrees (given evaluation lower) (given evaluation higher) := by
  refine ⟨fun store => .after _ fun evaluated => ?_⟩
  cases evaluated with
  | error error => exact .refl _
  | ok result => exact (agrees result).on store

/-- The turns of loops agree if their bodies do. -/
theorem Agrees.turn {condition : Store → Evaluation Bool} (agrees : Agrees lower higher)
    (store : Store) :
    (turn condition lower store).Agrees (fun taken => ∃ after, taken = .stop (.unfinished, after))
      (turn condition higher store) := by
  refine .after _ fun evaluated => ?_
  rcases evaluated with error | truth
  · exact .refl _
  · cases truth with
    | false => exact .refl _
    | true =>
        refine (agrees.on store).bind ?_ fun _ => .refl _
        rintro ⟨ending, after⟩ rfl
        exact ⟨.stop (.unfinished, after), ⟨after, rfl⟩, rfl⟩

/-- More turns make no difference to a loop that ends. -/
theorem Agrees.repeatWhile {condition : Store → Evaluation Bool} (agrees : Agrees lower higher)
    {limit more : Nat} (le : limit ≤ more) :
    Agrees (repeatWhile limit condition lower) (repeatWhile more condition higher) := by
  refine ⟨?_⟩
  rw [Execution.repeatWhile, Execution.repeatWhile]
  induction limit generalizing more with
  | zero => exact fun store => .gaveUp (by rfl) _
  | succ limit inductionHypothesis =>
      intro store
      obtain ⟨more, rfl⟩ : ∃ fewer, more = fewer + 1 := ⟨more - 1, by omega⟩
      rw [Dialogue.iterate_succ, Dialogue.iterate_succ]
      refine (agrees.turn store).bind ?_ fun taken => ?_
      · rintro _ ⟨after, rfl⟩
        exact ⟨(.unfinished, after), rfl, rfl⟩
      · cases taken with
        | again next => exact inductionHypothesis (by omega) next
        | stop result => exact .refl _

end Execution

namespace Instruction

open Execution

variable {limit more : Nat}

mutual

/-- An instruction that ends under a limit ends alike under every higher one. -/
theorem agrees_execute (le : limit ≤ more) : ∀ instruction : Instruction,
    Agrees (execute limit instruction) (execute more instruction)
  | .exit _ => .refl _
  | .print .. => .refl _
  | .declare .. => .refl _
  | .modify .. => .refl _
  | .branch _ thenBody none _ => .inFrame (.given fun
      | true => agrees_executeAll le thenBody
      | false => .refl _)
  | .branch _ thenBody (some elseBody) _ => .inFrame (.given fun
      | true => agrees_executeAll le thenBody
      | false => agrees_executeAll le elseBody)
  | .whileLoop _ body _ => .repeatWhile (.inFrame (agrees_executeAll le body)) le
  | .forLoop init _ update body _ =>
      .inFrame (.andThen (agrees_executeAll le init)
        (.repeatWhile
          (.inFrame (.andThen (agrees_executeAll le body) (agrees_executeAll le update))) le))

/-- So do instructions in a row. -/
theorem agrees_executeAll (le : limit ≤ more) : ∀ body : List Instruction,
    Agrees (executeAll limit body) (executeAll more body)
  | [] => .refl _
  | instruction :: rest => .andThen (agrees_execute le instruction) (agrees_executeAll le rest)

end

end Instruction

/-- So does a program. -/
theorem Program.agrees_execute {limit more : Nat} (le : limit ≤ more) (program : Program) :
    Execution.Agrees (program.execute limit) (program.execute more) := by
  refine ⟨fun store =>
    ((Instruction.agrees_executeAll le program.instructions).on store).bind ?_ fun _ => .refl _⟩
  rintro ⟨ending, after⟩ rfl
  exact ⟨(.unfinished, after), rfl, rfl⟩

/-! ### Runs that end, and runs that do not -/

namespace Session

variable {σ : Type} {console : Console σ} {session : Session σ} {run other : Nat → Execution}
  {ending : Ending} {after : Session σ} {record : List Exchange}

/-- The exchanges of an execution in a session. -/
def exchanges (console : Console σ) (execution : Execution) (session : Session σ) :
    List Exchange :=
  (execution session.store).exchanges console session.world

/-- The run ends: from some limit on it always ends in this way, with this store and state of
the console, and after these exchanges. -/
structure Ends (console : Console σ) (run : Nat → Execution) (session : Session σ)
    (ending : Ending) (after : Session σ) (record : List Exchange) : Prop where
  finished : ending ≠ .unfinished
  settled : ∃ enough, ∀ limit, enough ≤ limit →
    session.hold console (run limit) = (ending, after) ∧
    session.exchanges console (run limit) = record

/-- The run goes on for ever: it spends every limit. -/
def Diverges (console : Console σ) (run : Nat → Execution) (session : Session σ) : Prop :=
  ∀ limit, (session.hold console (run limit)).1 = .unfinished

/-- Two runs do the same: both go on for ever, or both end in one way, with one store and
state of the console, and after the same exchanges. -/
def Alike (console : Console σ) (run other : Nat → Execution) (session : Session σ) : Prop :=
  (session.Diverges console run ∧ session.Diverges console other) ∨
  ∃ ending after record, session.Ends console run ending after record ∧
    session.Ends console other ending after record

/-- A session holds one of the dialogues that an execution can be. -/
theorem mayEnd_hold (console : Console σ) (execution : Execution) (session : Session σ) :
    (execution session.store).MayEnd
      ((session.hold console execution).1, (session.hold console execution).2.store) :=
  Dialogue.mayEnd_run console (execution session.store) session.world

/-- The way in which a run ends is one of those in which it may end. -/
theorem Ends.exists_mayEnd (ends : session.Ends console run ending after record) :
    ∃ limit, (run limit session.store).MayEnd (ending, after.store) := by
  obtain ⟨enough, settled⟩ := ends.settled
  have held := mayEnd_hold console (run enough) session
  rw [(settled enough (Nat.le_refl enough)).1] at held
  exact ⟨enough, held⟩

/-- A run ends in one way only. -/
theorem Ends.unique {otherEnding : Ending} {otherAfter : Session σ}
    {otherRecord : List Exchange} (ends : session.Ends console run ending after record)
    (others : session.Ends console run otherEnding otherAfter otherRecord) :
    ending = otherEnding ∧ after = otherAfter ∧ record = otherRecord := by
  obtain ⟨least, settled⟩ := ends.settled
  obtain ⟨otherLeast, otherSettled⟩ := others.settled
  obtain ⟨held, recorded⟩ := settled (max least otherLeast) (Nat.le_max_left _ _)
  obtain ⟨otherHeld, otherRecorded⟩ :=
    otherSettled (max least otherLeast) (Nat.le_max_right _ _)
  obtain ⟨rfl, rfl⟩ := Prod.mk.inj (held.symm.trans otherHeld)
  exact ⟨rfl, rfl, recorded.symm.trans otherRecorded⟩

/-- A run that ends does not go on for ever. -/
theorem Ends.not_diverges (ends : session.Ends console run ending after record) :
    ¬ session.Diverges console run := by
  intro diverges
  obtain ⟨least, settled⟩ := ends.settled
  have unfinished := diverges least
  rw [(settled least (Nat.le_refl _)).1] at unfinished
  exact ends.finished unfinished

/-- Executions that agree are held alike, with the same exchanges. -/
theorem hold_of_agrees {lower higher : Execution} (agrees : lower.Agrees higher)
    (finished : (session.hold console lower).1 ≠ .unfinished) :
    session.hold console higher = session.hold console lower ∧
    session.exchanges console higher = session.exchanges console lower := by
  have same := (agrees.on session.store).run_eq console session.world finished
  refine ⟨by simp only [hold, same], ?_⟩
  -- what a console that keeps a record sees is the same, and so is the record
  have recorded := (agrees.on session.store).run_eq console.recording (session.world, [])
  rw [Dialogue.run_recording, Dialogue.run_recording] at recorded
  exact congrArg (fun result => result.2.2) (recorded finished)

/-- A run that no higher limit changes once it has ended ends in the way that it does under a
limit that is high enough. -/
theorem ends_of_finished
    (stable : ∀ {limit more : Nat}, limit ≤ more → (run limit).Agrees (run more)) {enough : Nat}
    (finished : (session.hold console (run enough)).1 ≠ .unfinished) :
    session.Ends console run (session.hold console (run enough)).1
      (session.hold console (run enough)).2 (session.exchanges console (run enough)) :=
  ⟨finished, enough, fun _ le => hold_of_agrees (stable le) finished⟩

/-- Such a run ends, unless it goes on for ever. -/
theorem exists_ends_iff
    (stable : ∀ {limit more : Nat}, limit ≤ more → (run limit).Agrees (run more)) :
    (∃ ending after record, session.Ends console run ending after record) ↔
      ¬ session.Diverges console run := by
  constructor
  · rintro ⟨_, _, _, ends⟩
    exact ends.not_diverges
  · intro stops
    obtain ⟨enough, finished⟩ := Classical.not_forall.mp stops
    exact ⟨_, _, _, ends_of_finished stable finished⟩

/-- The run passes these exchanges: under every limit that is high enough it begins with
them. -/
def Passes (console : Console σ) (run : Nat → Execution) (session : Session σ)
    (record : List Exchange) : Prop :=
  ∃ enough, ∀ limit, enough ≤ limit → record <+: session.exchanges console (run limit)

/-- The exchanges with which a run begins under some limit it passes: a higher limit only adds
to them. -/
theorem passes_iff
    (stable : ∀ {limit more : Nat}, limit ≤ more → (run limit).Agrees (run more)) :
    session.Passes console run record ↔
      ∃ limit, record <+: session.exchanges console (run limit) := by
  constructor
  · rintro ⟨enough, begins⟩
    exact ⟨enough, begins enough (Nat.le_refl enough)⟩
  · rintro ⟨enough, begins⟩
    exact ⟨enough, fun limit le => begins.trans
      (((stable le).on session.store).exchanges_begin console session.world)⟩

/-- A run that ends passes all its exchanges. -/
theorem Ends.passes (ends : session.Ends console run ending after record) :
    session.Passes console run record := by
  obtain ⟨enough, settled⟩ := ends.settled
  exact ⟨enough, fun limit le => (settled limit le).2 ▸ List.prefix_rfl⟩

/-- A run that passes some exchanges passes what they begin with. -/
theorem Passes.of_begun {begun : List Exchange}
    (passes : session.Passes console run record) (begins : begun <+: record) :
    session.Passes console run begun := by
  obtain ⟨enough, settled⟩ := passes
  exact ⟨enough, fun limit le => begins.trans (settled limit le)⟩

/-- Runs that are the same under every limit do the same. -/
theorem alike_of_eq
    (stable : ∀ {limit more : Nat}, limit ≤ more → (run limit).Agrees (run more))
    (same : ∀ limit, run limit = other limit) : session.Alike console run other := by
  obtain rfl : run = other := funext same
  by_cases diverges : session.Diverges console run
  · exact Or.inl ⟨diverges, diverges⟩
  · obtain ⟨ending, after, record, ends⟩ := (exists_ends_iff stable).mpr diverges
    exact Or.inr ⟨ending, after, record, ends, ends⟩

end Session
end Letterline
