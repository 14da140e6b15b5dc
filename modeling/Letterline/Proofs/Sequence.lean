/-
Module: Letterline.Proofs.Sequence
Purpose: What an execution comes to on a console, put together from what its parts come to.
Trusted boundary: none
Main exports:
  Dialogue.exchanges_bind, Execution.thenBy, Session.hold_thenBy, Session.hold_given,
  Dialogue.EndsOn, Session.Ends.inFrame, Session.Ends.andThen, Session.AfterTurns,
  Session.AfterTurns.unique, Session.AfterTurns.ends
-/
import Letterline.Proofs.Limit

namespace Letterline

/-!
An execution is a dialogue that goes on with the result of another one, again and again.  On
a console the second part begins in the state that the first one has left, and its exchanges
follow those of the first.  From this the combinators of executions get one rule each, and a
loop gets one for its turns: the sessions that its turns lead to are determined one after the
other, and where the condition does not hold in the last of them the loop ends there.
-/

namespace Dialogue

variable {α β σ : Type} {console : Console σ}

theorem exchanges_bind (dialogue : Dialogue α) (f : α → Dialogue β) (state : σ) :
    (dialogue.bind f).exchanges console state =
      dialogue.exchanges console state ++
        (f (dialogue.run console state).1).exchanges console (dialogue.run console state).2 := by
  induction dialogue generalizing state with
  | done result => rfl
  | ask next inductionHypothesis => exact congrArg _ (inductionHypothesis _ _)
  | tell text next inductionHypothesis => exact congrArg _ (inductionHypothesis _ _)
  | flush next inductionHypothesis => exact congrArg _ (inductionHypothesis _ _)

/-- On a console a dialogue ends with a result and in a state, after some exchanges. -/
structure EndsOn (console : Console σ) (dialogue : Dialogue α) (state : σ) (result : α)
    (after : σ) (record : List Exchange) : Prop where
  run : dialogue.run console state = (result, after)
  exchanges : dialogue.exchanges console state = record

namespace EndsOn

variable {dialogue : Dialogue α} {state between after : σ} {record further : List Exchange}

theorem done (console : Console σ) (result : α) (state : σ) :
    EndsOn console (.done result) state result state [] :=
  ⟨rfl, rfl⟩

theorem bind {f : α → Dialogue β} {middle : α} {result : β}
    (first : EndsOn console dialogue state middle between record)
    (second : EndsOn console (f middle) between result after further) :
    EndsOn console (dialogue.bind f) state result after (record ++ further) where
  run := by rw [run_bind, first.run, second.run]
  exchanges := by rw [exchanges_bind, first.run, first.exchanges, second.exchanges]

/-- A dialogue ends in one way only. -/
theorem unique {result other : α} {otherAfter : σ} {otherRecord : List Exchange}
    (ends : EndsOn console dialogue state result after record)
    (others : EndsOn console dialogue state other otherAfter otherRecord) :
    result = other ∧ after = otherAfter ∧ record = otherRecord := by
  obtain ⟨rfl, rfl⟩ := Prod.mk.inj (ends.run.symm.trans others.run)
  exact ⟨rfl, rfl, ends.exchanges.symm.trans others.exchanges⟩

end EndsOn
end Dialogue

/-! ### Parts of executions -/

namespace Execution

/-- Goes on in a way that depends on how the first part ended. -/
def thenBy (first : Execution) (next : Ending → Execution) : Execution := fun store =>
  (first store).bind fun reached => next reached.1 reached.2

theorem thenBy_assoc (first : Execution) (next last : Ending → Execution) :
    thenBy (thenBy first next) last = thenBy first fun ending => thenBy (next ending) last := by
  funext store
  rw [thenBy, thenBy, Dialogue.bind_assoc]
  rfl

/-- Goes on to an execution if all went well up to here, and otherwise to one for the way in
which it ended. -/
def ifProceeds (next : Execution) (stopped : Ending → Execution) : Ending → Execution
  | .proceeds => next
  | ending => stopped ending

theorem ifProceeds_of_ne {ending : Ending} (stops : ending ≠ .proceeds) (next : Execution)
    (stopped : Ending → Execution) : ifProceeds next stopped ending = stopped ending := by
  cases ending with
  | proceeds => exact absurd rfl stops
  | exits => rfl
  | fails error => rfl
  | unfinished => rfl

theorem andThen_eq_thenBy (first second : Execution) :
    andThen first second =
      thenBy first (ifProceeds second fun ending store => .done (ending, store)) := by
  funext store
  rw [andThen, thenBy, Dialogue.bind_eq]
  congr 1
  funext reached
  rcases reached with ⟨ending, after⟩
  cases ending <;> rfl

section EndsOn

open Dialogue

variable {σ : Type} {console : Console σ} {state between after : σ} {store middle last : Store}
  {ending : Ending} {record further : List Exchange}

theorem endsOn_inFrame {body : Execution}
    (inside : EndsOn console (body store.push) state (ending, last) after record) :
    EndsOn console (inFrame body store) state (ending, last.pop) after record := by
  have closed := inside.bind (f := fun reached => .done (reached.1, reached.2.pop))
    (.done console (ending, last.pop) after)
  rwa [List.append_nil] at closed

theorem endsOn_andThen {first second : Execution}
    (firstEnds : EndsOn console (first store) state (.proceeds, middle) between record)
    (secondEnds : EndsOn console (second middle) between (ending, last) after further) :
    EndsOn console (andThen first second store) state (ending, last) after
      (record ++ further) := by
  rw [andThen_eq_thenBy]
  exact firstEnds.bind secondEnds

/-- A turn that another one follows. -/
theorem endsOn_turn {condition : Store → Evaluation Bool} {body : Execution}
    (truth : EndsOn console (condition store).run state (.ok true) between record)
    (bodyEnds : EndsOn console (body store) between (.proceeds, last) after further) :
    EndsOn console (turn condition body store) state (.again last) after
      (record ++ further) := by
  refine truth.bind ?_
  rw [← List.append_nil further]
  exact bodyEnds.bind (.done console _ after)

theorem endsOn_repeatWhile_again {condition : Store → Evaluation Bool} {body : Execution}
    {limit : Nat} (again : EndsOn console (turn condition body store) state (.again middle) between
      record)
    (rest : EndsOn console (repeatWhile limit condition body middle) between (ending, last) after
      further) :
    EndsOn console (repeatWhile (limit + 1) condition body store) state (ending, last) after
      (record ++ further) := by
  rw [repeatWhile, iterate_succ]
  exact again.bind rest

/-- A turn that is the last one because the condition does not hold. -/
theorem endsOn_turn_over {condition : Store → Evaluation Bool} {body : Execution}
    (untrue : EndsOn console (condition store).run state (.ok false) after record) :
    EndsOn console (turn condition body store) state (.stop (.proceeds, store)) after record := by
  rw [← List.append_nil record]
  exact untrue.bind (.done console _ after)

theorem endsOn_repeatWhile_done {condition : Store → Evaluation Bool} {body : Execution}
    {limit : Nat} (untrue : EndsOn console (condition store).run state (.ok false) after record) :
    EndsOn console (repeatWhile (limit + 1) condition body store) state (.proceeds, store) after
      record := by
  have turned : EndsOn console (turn condition body store) state (.stop (.proceeds, store)) after
      record := endsOn_turn_over untrue
  rw [repeatWhile, iterate_succ, ← List.append_nil record]
  exact turned.bind (.done console (Ending.proceeds, store) after)

end EndsOn
end Execution

/-! ### Sessions -/

namespace Session

open Dialogue Execution

variable {σ : Type} {console : Console σ} {session : Session σ}

theorem hold_thenBy (first : Execution) (next : Ending → Execution) :
    session.hold console (thenBy first next) =
      (session.hold console first).2.hold console (next (session.hold console first).1) := by
  simp only [hold, thenBy, Dialogue.run_bind]

theorem exchanges_thenBy (first : Execution) (next : Ending → Execution) :
    session.exchanges console (thenBy first next) =
      session.exchanges console first ++
        (session.hold console first).2.exchanges console
          (next (session.hold console first).1) :=
  Dialogue.exchanges_bind _ _ _

/-- What is evaluated is passed on in the state of the console that it has left, and a fault of
it ends the run. -/
theorem hold_given {α : Type} (evaluation : Store → Evaluation α) (body : α → Execution) :
    session.hold console (given evaluation body) =
      match (evaluation session.store).run.run console session.world with
      | (.ok result, world) => (Session.mk session.store world).hold console (body result)
      | (.error error, world) => (.fails error, ⟨session.store, world⟩) := by
  simp only [hold, given, bind_eq, Dialogue.run_bind]
  rcases (evaluation session.store).run.run console session.world with ⟨error | result, world⟩
  · rfl
  · rfl

/-- The session with a frame opened. -/
def push (session : Session σ) : Session σ :=
  { session with store := session.store.push }

/-- The session with the top frame closed. -/
def pop (session : Session σ) : Session σ :=
  { session with store := session.store.pop }

variable {ending : Ending} {middle after : Session σ} {record further : List Exchange}

/-- To be held in a session is to end on its console. -/
theorem endsOn_iff {execution : Execution} :
    EndsOn console (execution session.store) session.world (ending, after.store) after.world
        record ↔
      session.hold console execution = (ending, after) ∧
        session.exchanges console execution = record := by
  constructor
  · rintro ⟨run, exchanged⟩
    exact ⟨by rw [hold, run], exchanged⟩
  · rintro ⟨held, exchanged⟩
    rcases ran : (execution session.store).run console session.world with ⟨⟨reached, store⟩, world⟩
    rw [hold, ran] at held
    cases held
    exact ⟨ran, exchanged⟩

theorem ends_iff {run : Nat → Execution} :
    session.Ends console run ending after record ↔
      ending ≠ .unfinished ∧ ∃ enough, ∀ limit, enough ≤ limit →
        EndsOn console (run limit session.store) session.world (ending, after.store) after.world
          record := by
  simp only [endsOn_iff]
  exact ⟨fun ends => ⟨ends.finished, ends.settled⟩, fun ends => ⟨ends.1, ends.2⟩⟩

namespace Ends

variable {run next : Nat → Execution}

/-- A run that takes no turn of a loop and says nothing ends at once. -/
theorem of_done {store : Store} (finished : ending ≠ .unfinished)
    (same : ∀ limit, run limit session.store = .done (ending, store)) :
    session.Ends console run ending ⟨store, session.world⟩ [] := by
  refine ends_iff.mpr ⟨finished, 0, fun limit _ => ?_⟩
  rw [same]
  exact .done console (ending, store) session.world

theorem inFrame (inside : session.push.Ends console run ending after record) :
    session.Ends console (fun limit => .inFrame (run limit)) ending after.pop record := by
  obtain ⟨finished, enough, settled⟩ := ends_iff.mp inside
  exact ends_iff.mpr ⟨finished, enough, fun limit le => endsOn_inFrame (settled limit le)⟩

theorem andThen (first : session.Ends console run .proceeds middle record)
    (second : middle.Ends console next ending after further) :
    session.Ends console (fun limit => .andThen (run limit) (next limit)) ending after
      (record ++ further) := by
  obtain ⟨_, enough, settled⟩ := ends_iff.mp first
  obtain ⟨finished, enoughSecond, settledSecond⟩ := ends_iff.mp second
  refine ends_iff.mpr ⟨finished, max enough enoughSecond, fun limit le => ?_⟩
  exact endsOn_andThen (settled limit (by omega)) (settledSecond limit (by omega))

end Ends

/-! ### Turns -/

/-- The sessions that the turns of a loop lead to, and the exchanges up to there.  In each of
them the condition held, and what the turn runs came to its end. -/
inductive AfterTurns (console : Console σ) (condition : Store → Evaluation Bool)
    (turn : Nat → Execution) (entered : Session σ) : Nat → Session σ → List Exchange → Prop where
  | entered : AfterTurns console condition turn entered 0 entered []
  | next {count : Nat} {before after : Session σ} {world : σ}
      {record asked further : List Exchange}
      (soFar : AfterTurns console condition turn entered count before record)
      (truth : EndsOn console (condition before.store).run before.world (.ok true) world asked)
      (turnEnds : (Session.mk before.store world).Ends console turn .proceeds after further) :
      AfterTurns console condition turn entered (count + 1) after (record ++ (asked ++ further))

namespace AfterTurns

variable {condition : Store → Evaluation Bool} {turn : Nat → Execution}
  {entered last other : Session σ} {count more : Nat} {otherRecord asked : List Exchange}
  {world : σ}

/-- So many turns lead to one session only. -/
theorem unique (turns : AfterTurns console condition turn entered count last record)
    (others : AfterTurns console condition turn entered count other otherRecord) :
    last = other ∧ record = otherRecord := by
  induction turns generalizing other otherRecord with
  | entered => cases others; exact ⟨rfl, rfl⟩
  | next soFar truth turnEnds inductionHypothesis =>
      cases others with
      | next otherSoFar otherTruth otherEnds =>
          obtain ⟨rfl, rfl⟩ := inductionHypothesis otherSoFar
          obtain ⟨-, rfl, rfl⟩ := truth.unique otherTruth
          obtain ⟨-, rfl, rfl⟩ := turnEnds.unique otherEnds
          exact ⟨rfl, rfl⟩

/-- No turn follows where the condition does not hold. -/
theorem le_of_over (turns : AfterTurns console condition turn entered count last record)
    (untrue : EndsOn console (condition last.store).run last.world (.ok false) world asked)
    (others : AfterTurns console condition turn entered more other otherRecord) :
    more ≤ count := by
  induction others with
  | entered => exact Nat.zero_le count
  | next soFar truth turnEnds inductionHypothesis =>
      obtain equal | less := Nat.eq_or_lt_of_le inductionHypothesis
      · subst equal
        obtain ⟨rfl, -⟩ := turns.unique soFar
        obtain ⟨impossible, -⟩ := untrue.unique truth
        cases impossible
      · exact less

/-- With a limit that is high enough for each turn, a loop goes through its turns. -/
theorem endsOn_repeatWhile (turns : AfterTurns console condition turn entered count last record) :
    ∃ enough, ∀ limit, enough ≤ limit → ∀ {rest : Nat} {store : Store} {ending : Ending}
      {world : σ} {further : List Exchange},
      EndsOn console (repeatWhile rest condition (turn limit) last.store) last.world
        (ending, store) world further →
      EndsOn console (repeatWhile (rest + count) condition (turn limit) entered.store)
        entered.world (ending, store) world (record ++ further) := by
  induction turns with
  | entered => exact ⟨0, fun _ _ _ _ _ _ _ ends => ends⟩
  | next soFar truth turnEnds inductionHypothesis =>
      obtain ⟨enough, through⟩ := inductionHypothesis
      obtain ⟨_, enoughTurn, settled⟩ := ends_iff.mp turnEnds
      refine ⟨max enough enoughTurn, fun limit le rest store ending world further ends => ?_⟩
      have again := endsOn_turn truth (settled limit (by omega))
      have passed := through limit (by omega) (endsOn_repeatWhile_again again ends)
      rwa [Nat.add_right_comm, ← List.append_assoc] at passed

/-- A loop ends where the condition does not hold after so many turns. -/
theorem ends (turns : AfterTurns console condition turn entered count last record)
    (untrue : EndsOn console (condition last.store).run last.world (.ok false) world asked) :
    entered.Ends console (fun limit => repeatWhile limit condition (turn limit)) .proceeds
      ⟨last.store, world⟩ (record ++ asked) := by
  obtain ⟨enough, through⟩ := turns.endsOn_repeatWhile
  refine ends_iff.mpr ⟨nofun, max enough (count + 1), fun limit le => ?_⟩
  obtain ⟨rest, rfl⟩ : ∃ rest, limit = rest + 1 + count := ⟨limit - 1 - count, by omega⟩
  exact through _ (by omega) (endsOn_repeatWhile_done untrue)

end AfterTurns
end Session

end Letterline
