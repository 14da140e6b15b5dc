/-
Module: Letterline.Proofs.Truncation
Purpose: A fault of the output breaks a run off and changes nothing else about it.
Trusted boundary: none
Main exports:
  Dialogue.StopsAtFault, Program.stopsAtFault_execute, Script.withLineLimit, textTaken,
  Script.exchanges_withLineLimit, Session.BrokenOff, Session.alike_or_brokenOff
-/
import Letterline.Proofs.Causality
import Letterline.Proofs.SessionInvariant

namespace Letterline

/-!
A text that the console does not take is the last thing that a program says.  Nothing of a
program looks at the reason, tries again, or says something else first: the fault goes up
through every body and every loop as it is, and on its way only frames are closed.  So as
long as all texts are taken a limit on the output is not felt, and where one is not taken the
run is over.  What it has said by then is what it says without the limit up to that text.
-/

/-! ### Dialogues that stop at a fault -/

namespace Dialogue

variable {α β σ : Type}

/-- No empty text is written, and the dialogue is over when a text is not taken, with a
result in which the reason can be found. -/
inductive StopsAtFault (Fault : String → α → Prop) : Dialogue α → Prop where
  | done (result : α) : StopsAtFault Fault (.done result)
  | ask {next : Except String String → Dialogue α}
      (answered : ∀ answer, StopsAtFault Fault (next answer)) : StopsAtFault Fault (.ask next)
  | tell {text : String} {next : Except String Unit → Dialogue α} (filled : text ≠ "")
      (taken : StopsAtFault Fault (next (.ok ())))
      (refused : ∀ reason, ∃ result, Fault reason result ∧ next (.error reason) = .done result) :
      StopsAtFault Fault (.tell text next)
  | flush {next : Except String Unit → Dialogue α}
      (answered : ∀ answer, StopsAtFault Fault (next answer)) : StopsAtFault Fault (.flush next)

namespace StopsAtFault

variable {Fault : String → α → Prop} {FaultAfter : String → β → Prop}

/-- A dialogue that goes on stops at a fault of its first part if the fault is passed on. -/
theorem bind {dialogue : Dialogue α} {f : α → Dialogue β} (stops : dialogue.StopsAtFault Fault)
    (passedOn : ∀ reason result, Fault reason result →
      ∃ last, FaultAfter reason last ∧ f result = .done last)
    (goesOn : ∀ result, (f result).StopsAtFault FaultAfter) :
    (dialogue.bind f).StopsAtFault FaultAfter := by
  induction stops with
  | done result => exact goesOn result
  | ask _ inductionHypothesis => exact .ask inductionHypothesis
  | tell filled _ refused inductionHypothesis =>
      apply StopsAtFault.tell filled inductionHypothesis
      intro reason
      obtain ⟨result, fault, ends⟩ := refused reason
      obtain ⟨last, faultAfter, passed⟩ := passedOn reason result fault
      exact ⟨last, faultAfter, by rw [ends, done_bind, passed]⟩
  | flush _ inductionHypothesis => exact .flush inductionHypothesis

/-- A repetition stops at a fault if a turn that meets one is the last. -/
theorem iterate {turn : σ → Dialogue (Turn σ α)} {giveUp : σ → α}
    (turns : ∀ state, (turn state).StopsAtFault
      fun reason taken => ∃ result, Fault reason result ∧ taken = .stop result) :
    ∀ (limit : Nat) (state : σ), (Dialogue.iterate turn giveUp limit state).StopsAtFault Fault
  | 0, state => .done (giveUp state)
  | limit + 1, state => by
      rw [iterate_succ]
      apply (turns state).bind
      · intro reason taken evidence
        rcases evidence with ⟨result, fault, rfl⟩
        exact ⟨result, fault, rfl⟩
      · intro taken
        cases taken with
        | again next => exact iterate turns limit next
        | stop result => exact .done result

end StopsAtFault
end Dialogue

/-! ### Evaluations -/

section

variable {α β : Type} {store : Store}

/-- An evaluation writes nothing, so no fault of the output ends it. -/
def Evaluation.Silent (evaluation : Evaluation α) : Prop :=
  evaluation.run.StopsAtFault fun _ _ => False

namespace Evaluation

theorem silent_ofExcept (result : Except RuntimeError α) : (ofExcept result).Silent :=
  .done result

theorem silent_pure (result : α) : (pure result : Evaluation α).Silent :=
  silent_ofExcept (.ok result)

theorem silent_throw (error : RuntimeError) : (throw error : Evaluation α).Silent :=
  silent_ofExcept (.error error)

theorem silent_ask : ask.Silent :=
  .ask fun _ => .done _

/-- What goes on from an evaluation alone decides how the whole stops. -/
theorem Silent.goesOn {evaluation : Evaluation α} {Fault : String → β → Prop}
    {f : Except RuntimeError α → Dialogue β} (silent : evaluation.Silent)
    (stops : ∀ outcome, (f outcome).StopsAtFault Fault) :
    (evaluation.run.bind f).StopsAtFault Fault :=
  Dialogue.StopsAtFault.bind silent (fun _ _ fault => False.elim fault) stops

theorem Silent.bind {evaluation : Evaluation α} {f : α → Evaluation β}
    (silent : evaluation.Silent) (others : ∀ result, (f result).Silent) :
    (evaluation >>= f).Silent := by
  rw [Silent, ExceptT.run_bind]
  apply silent.goesOn
  intro outcome
  cases outcome with
  | ok result => exact others result
  | error error => exact .done (Except.error error)

end Evaluation

open Evaluation

theorem Operand.silent_resolve (operand : Operand) : (operand.resolve store).Silent := by
  cases operand with
  | literal scalar => exact silent_pure _
  | input => exact silent_ask.bind fun _ => silent_pure _
  | «variable» name =>
      rw [resolve]
      split
      · exact silent_throw _
      · split
        · exact silent_throw _
        · exact silent_pure _

namespace Value

theorem silent_fold (parts : List Part) :
    ∀ accumulated, (fold store accumulated parts).Silent := by
  induction parts with
  | nil => exact fun _ => silent_pure _
  | cons part rest inductionHypothesis =>
      intro accumulated
      apply part.operand.silent_resolve.bind
      intro operand
      apply (silent_ofExcept _).bind
      exact inductionHypothesis

theorem silent_result (value : Value) : (value.result store).Silent := by
  rw [result]
  split
  · exact silent_pure _
  · exact (silent_fold value.parts none).bind fun _ => silent_pure _

theorem silent_evaluate (value : Value) : (value.evaluate store).Silent := by
  rw [evaluate]
  split
  · exact silent_pure _
  · exact value.silent_result.bind fun _ => silent_pure _

end Value

theorem Modification.silent_newValue (name : String) (modification : Modification) :
    (modification.newValue name store).Silent := by
  rw [newValue]
  split
  · exact silent_throw _
  · cases modification with
    | assign value => exact value.silent_result.bind fun _ => silent_pure _
    | _ => exact Value.silent_evaluate _

namespace Condition

mutual

theorem silent_evaluate : ∀ condition : Condition, (condition.evaluate store).Silent
  | .compare left _ right => by
      rw [evaluate]
      apply left.silent_result.bind
      intro leftScalar
      apply right.silent_result.bind
      exact fun _ => silent_ofExcept _
  | .chain head rest => by
      rw [evaluate]
      exact (silent_evaluate head).bind (silent_evaluateLinks rest)

theorem silent_evaluateLinks : ∀ (links : List (Connective × Condition)) (truth : Bool),
    (evaluateLinks store truth links).Silent
  | [], _ => silent_pure _
  | (_, condition) :: rest, _ => by
      rw [evaluateLinks]
      exact (silent_evaluate condition).bind fun _ => silent_evaluateLinks rest _

end

end Condition

end

/-! ### Executions -/

/-- Whatever store it runs on, an execution is over when a text is not taken, and fails for
the reason of the console. -/
structure Execution.StopsAtFault (execution : Execution) : Prop where
  on : ∀ store, (execution store).StopsAtFault
    fun reason reached => reached.1 = .fails (.output reason)

namespace Execution.StopsAtFault

variable {α : Type} {body first second : Execution}

theorem still (ending : Ending) : StopsAtFault fun store => .done (ending, store) :=
  ⟨fun _ => .done _⟩

theorem change (change : Store → Store) :
    StopsAtFault fun store => .done (.proceeds, change store) :=
  ⟨fun _ => .done _⟩

/-- Of a line no more is written once its text, if it has one, or its end is not taken. -/
theorem writeLine (text : String) :
    (Execution.writeLine text).StopsAtFault fun reason answer => answer = .error reason := by
  have ended : (Dialogue.tell "\n" .done).StopsAtFault
      fun reason (answer : Except String Unit) => answer = .error reason :=
    .tell (by decide) (.done _) fun reason => ⟨_, rfl, rfl⟩
  rw [Execution.writeLine]
  split
  · exact ended
  · next filled => exact .tell filled ended fun reason => ⟨_, rfl, rfl⟩

theorem print (text : String) : StopsAtFault (Execution.print text) := by
  refine ⟨fun store => (writeLine text).bind ?_ ?_⟩
  · rintro reason _ rfl
    exact ⟨(.fails (.output reason), store), rfl, rfl⟩
  · intro answer
    cases answer <;> exact .done _

theorem inFrame (inside : StopsAtFault body) : StopsAtFault (Execution.inFrame body) := by
  refine ⟨fun store => (inside.on store.push).bind ?_ fun _ => .done _⟩
  rintro reason ⟨_, after⟩ rfl
  exact ⟨(.fails (.output reason), after.pop), rfl, rfl⟩

theorem andThen (firstStops : StopsAtFault first) (secondStops : StopsAtFault second) :
    StopsAtFault (Execution.andThen first second) := by
  refine ⟨fun store => (firstStops.on store).bind ?_ ?_⟩
  · rintro reason ⟨_, after⟩ rfl
    exact ⟨(.fails (.output reason), after), rfl, rfl⟩
  · rintro ⟨ending, after⟩
    cases ending with
    | proceeds => exact secondStops.on after
    | _ => exact .done _

theorem given {evaluation : Store → Evaluation α} {body : α → Execution}
    (silent : ∀ store, (evaluation store).Silent) (inside : ∀ result, StopsAtFault (body result)) :
    StopsAtFault (Execution.given evaluation body) := by
  refine ⟨fun store => (silent store).goesOn ?_⟩
  intro outcome
  cases outcome with
  | ok result => exact (inside result).on store
  | error error => exact .done _

theorem turn {condition : Store → Evaluation Bool} (silent : ∀ store, (condition store).Silent)
    (inside : StopsAtFault body) (store : Store) :
    (Execution.turn condition body store).StopsAtFault fun reason taken =>
      ∃ reached : Ending × Store, reached.1 = .fails (.output reason) ∧ taken = .stop reached := by
  apply (silent store).goesOn
  intro outcome
  rcases outcome with error | truth
  · exact .done _
  · cases truth with
    | false => exact .done _
    | true =>
        apply (inside.on store).bind
        · rintro reason ⟨_, after⟩ rfl
          exact ⟨_, ⟨_, rfl, rfl⟩, rfl⟩
        · rintro ⟨ending, after⟩
          cases ending <;> exact .done _

theorem repeatWhile {condition : Store → Evaluation Bool}
    (silent : ∀ store, (condition store).Silent) (inside : StopsAtFault body) (limit : Nat) :
    StopsAtFault (Execution.repeatWhile limit condition body) :=
  ⟨Dialogue.StopsAtFault.iterate (turn silent inside) limit⟩

end Execution.StopsAtFault

namespace Instruction

open Execution

variable {limit : Nat}

mutual

/-- An instruction is over when a text is not taken. -/
theorem stopsAtFault_execute : ∀ instruction : Instruction,
    StopsAtFault (execute limit instruction)
  | .exit _ => .still .exits
  | .print value _ => .given (fun _ => value.silent_result) fun _ => .print _
  | .declare _ value _ => .given (fun _ => value.silent_result) fun _ => .change _
  | .modify name modification _ =>
      .given (fun _ => modification.silent_newValue name) fun _ => .change _
  | .branch condition thenBody none _ =>
      .inFrame (.given (fun _ => condition.silent_evaluate) fun
        | true => stopsAtFault_executeAll thenBody
        | false => .still .proceeds)
  | .branch condition thenBody (some elseBody) _ =>
      .inFrame (.given (fun _ => condition.silent_evaluate) fun
        | true => stopsAtFault_executeAll thenBody
        | false => stopsAtFault_executeAll elseBody)
  | .whileLoop condition body _ =>
      .repeatWhile (fun _ => condition.silent_evaluate) (.inFrame (stopsAtFault_executeAll body))
        limit
  | .forLoop init condition update body _ =>
      .inFrame (.andThen (stopsAtFault_executeAll init)
        (.repeatWhile (fun _ => condition.silent_evaluate)
          (.inFrame (.andThen (stopsAtFault_executeAll body) (stopsAtFault_executeAll update)))
          limit))

/-- So are instructions in a row. -/
theorem stopsAtFault_executeAll : ∀ body : List Instruction, StopsAtFault (executeAll limit body)
  | [] => .still .proceeds
  | instruction :: rest =>
      .andThen (stopsAtFault_execute instruction) (stopsAtFault_executeAll rest)

end

end Instruction

/-- So is a program: after a fault nothing is flushed. -/
theorem Program.stopsAtFault_execute (limit : Nat) (program : Program) :
    Execution.StopsAtFault (program.execute limit) := by
  refine ⟨fun store =>
    ((Instruction.stopsAtFault_executeAll program.instructions).on store).bind ?_ ?_⟩
  · rintro reason ⟨_, after⟩ rfl
    exact ⟨(.fails (.output reason), after), rfl, rfl⟩
  · rintro ⟨ending, after⟩
    cases ending with
    | fails error => exact .done _
    | unfinished => exact .done _
    | _ =>
        apply Dialogue.StopsAtFault.flush
        intro answer
        cases answer <;> exact .done _

/-! ### Scripts with and without a limit on the lines -/

/-- The texts of some exchanges that were taken, one behind the other. -/
def textTaken : List Exchange → String
  | [] => ""
  | .told text (.ok _) :: rest => text ++ textTaken rest
  | _ :: rest => textTaken rest

theorem textTaken_append (record further : List Exchange) :
    textTaken (record ++ further) = textTaken record ++ textTaken further := by
  fun_induction textTaken record with
  | case1 => exact String.empty_append.symm
  | case2 text _ rest inductionHypothesis =>
      rw [List.cons_append, textTaken, inductionHypothesis, String.append_assoc]
  | case3 exchange rest untaken inductionHypothesis =>
      rw [List.cons_append, textTaken.eq_3 _ _ untaken, inductionHypothesis]

namespace Script

/-- The script with another limit on the lines. -/
def withLineLimit (script : Script) (lineLimit : Option Nat) : Script :=
  { script with lineLimit := lineLimit }

/-- The script when a text was taken. -/
def taking (script : Script) (text : String) : Script :=
  { script with
    output := script.output ++ text
    lines := script.lines + text.toList.count '\n' }

variable {script : Script} {lineLimit : Option Nat} {text : String}

theorem answer_withLineLimit :
    (script.withLineLimit lineLimit).answer =
      (script.answer.1, script.answer.2.withLineLimit lineLimit) := by
  by_cases failing : script.failingRequest = some script.requests <;>
    simp [answer, withLineLimit, failing]

theorem write_of_full (full : script.isFull = true) :
    script.write text = (.error "output closed", script) :=
  if_pos full

theorem write_of_not_full (room : script.isFull = false) :
    script.write text = (.ok (), script.taking text) :=
  if_neg (Bool.eq_false_iff.mp room)

/-- A script knows of a run what was written and how often a line was asked for. -/
theorem run_console {α : Type} (dialogue : Dialogue α) (script : Script) :
    (dialogue.run console script).2.output =
        script.output ++ textTaken (dialogue.exchanges console script) ∧
      (dialogue.run console script).2.requests =
        script.requests + requestCount (dialogue.exchanges console script) := by
  induction dialogue generalizing script with
  | done result => exact ⟨String.append_empty.symm, rfl⟩
  | ask next inductionHypothesis =>
      obtain ⟨output, requests⟩ := inductionHypothesis script.answer.1 script.answer.2
      have kept : script.answer.2.output = script.output ∧
          script.answer.2.requests = script.requests + 1 := by
        rw [answer]
        split <;> exact ⟨rfl, rfl⟩
      rw [kept.1] at output
      rw [kept.2, Nat.add_assoc, Nat.add_comm 1, ← requestCount_asked] at requests
      exact ⟨output, requests⟩
  | tell text next inductionHypothesis =>
      cases full : script.isFull with
      | true =>
          simp only [Dialogue.run, Dialogue.exchanges, console, write_of_full full,
            requestCount_told]
          exact inductionHypothesis _ script
      | false =>
          obtain ⟨output, requests⟩ := inductionHypothesis (.ok ()) (script.taking text)
          simp only [Dialogue.run, Dialogue.exchanges, console, write_of_not_full full,
            requestCount_told]
          exact ⟨output.trans String.append_assoc, requests⟩
  | flush next inductionHypothesis =>
      obtain ⟨output, requests⟩ := inductionHypothesis script.flush.1 script.flush.2
      exact ⟨output, requests.trans (by rw [← requestCount_flushed]; rfl)⟩

end Script

/-! ### Dialogues that are held with a limit on the lines -/

/-- How a dialogue that is held with a limit on the lines goes beside the same dialogue held
without one: what they come to and what they exchange. -/
inductive Truncates {α : Type} (Fault : String → α → Prop) (most : Nat) :
    (whole : α × Script) → (record : List Exchange) →
    (limited : α × Script) → (other : List Exchange) → Prop where
  /-- The limit was not felt. -/
  | alike (result : α) (world : Script) (record : List Exchange) :
      Truncates Fault most (result, world.withLineLimit none) record
        (result, world.withLineLimit (some most)) record
  /-- A text was not taken, and the dialogue was over. -/
  | broken {whole limited : α × Script} {text : String} (filled : text ≠ "")
      (fault : Fault "output closed" limited.1) (passed further : List Exchange) :
      Truncates Fault most whole (passed ++ .told text (.ok ()) :: further)
        limited (passed ++ [.told text (.error "output closed")])

section

variable {α : Type} {Fault : String → α → Prop} {most : Nat} {script : Script}

theorem Truncates.cons {whole limited : α × Script} {record other : List Exchange}
    (exchange : Exchange) (truncates : Truncates Fault most whole record limited other) :
    Truncates Fault most whole (exchange :: record) limited (exchange :: other) := by
  cases truncates with
  | alike result world => exact .alike result world _
  | broken filled fault passed further => exact .broken filled fault (exchange :: passed) further

open Script in
/-- A limit on the lines does no more to a dialogue that stops at a fault than to break it
off. -/
theorem Dialogue.StopsAtFault.truncates {dialogue : Dialogue α}
    (stops : dialogue.StopsAtFault Fault) (script : Script) (most : Nat) :
    Truncates Fault most
      (dialogue.run console (script.withLineLimit none))
      (dialogue.exchanges console (script.withLineLimit none))
      (dialogue.run console (script.withLineLimit (some most)))
      (dialogue.exchanges console (script.withLineLimit (some most))) := by
  induction stops generalizing script with
  | done result => exact .alike result script []
  | ask _ inductionHypothesis =>
      simp only [run, exchanges, console, answer_withLineLimit]
      exact (inductionHypothesis _ _).cons _
  | @tell text next filled _ refused inductionHypothesis =>
      have unlimited : (script.withLineLimit none).isFull = false := rfl
      simp only [run, exchanges, console, write_of_not_full unlimited]
      cases full : (script.withLineLimit (some most)).isFull with
      | true =>
          obtain ⟨result, fault, ends⟩ := refused "output closed"
          simp only [write_of_full full, ends, run, exchanges]
          exact .broken filled fault [] _
      | false =>
          simp only [write_of_not_full full]
          exact (inductionHypothesis (script.taking text)).cons _
  | flush _ inductionHypothesis => exact (inductionHypothesis _ script).cons _

end

/-! ### Runs that are broken off -/

namespace Session

/-- The session with another limit on the lines of its script. -/
def withLineLimit (session : Session Script) (lineLimit : Option Nat) : Session Script :=
  ⟨session.store, session.world.withLineLimit lineLimit⟩

/-- From some limit on, what a run does to the store closes every frame that it opens, and
leads to the store that is left. -/
def ClosesFrames {σ : Type} (console : Console σ) (program : Program)
    (session after : Session σ) : Prop :=
  ∃ enough, ∀ limit, enough ≤ limit → ∃ names,
    Store.Nested names (session.performed console (program.trace limit)) ∧
      after.store =
        Store.replay (session.performed console (program.trace limit)) session.store ∧
      after.store.frames = Store.recordAll names session.store.frames

/-- How a run is broken off by a fault of the output: `sound` is the session in which all is
taken, and `after` the one that the faulty run leaves. -/
structure BrokenOff (program : Program) (sound faulty : Session Script)
    (passed : List Exchange) (text : String) (after : Session Script) : Prop where
  /-- What was not taken is not empty. -/
  filled : text ≠ ""
  /-- The run fails for it.  It has exchanged nothing since. -/
  ends : faulty.Ends Script.console (program.execute ·) (.fails (.output "output closed")) after
    (passed ++ [.told text (.error "output closed")])
  /-- The other run comes to the same place, and there the text is taken. -/
  passes : sound.Passes Script.console (program.execute ·) (passed ++ [.told text (.ok ())])
  /-- What was written lacks the text, compared with what the other run has written then. -/
  output : after.world.output ++ text =
    sound.world.output ++ textTaken (passed ++ [.told text (.ok ())])
  /-- So the output of the other run begins with what was written, and does not end there. -/
  begins : ∃ enough, ∀ limit, enough ≤ limit → ∃ more,
    (sound.hold Script.console (program.execute limit)).2.world.output =
      after.world.output ++ text ++ more
  /-- As many lines were asked for as the other run has asked for by then. -/
  requests : after.world.requests = sound.world.requests + requestCount passed
  /-- Every frame that was opened for a body is closed. -/
  frames : ClosesFrames Script.console program faulty after

/-- A run that ends has closed every frame that it opened, however it ends. -/
theorem Ends.closesFrames {σ : Type} {console : Console σ} {session after : Session σ}
    {program : Program} {ending : Ending} {record : List Exchange}
    (ends : session.Ends console (program.execute ·) ending after record) :
    ClosesFrames console program session after := by
  obtain ⟨enough, settled⟩ := ends.settled
  refine ⟨enough, fun limit le => ?_⟩
  obtain ⟨held, _⟩ := settled limit le
  have replayed := store_hold console (program.trace limit) session
  rw [Program.execution_trace, held] at replayed
  obtain ⟨_, performs⟩ := session.mayEnd_performed console (program.trace limit)
  obtain ⟨names, nested⟩ := Program.nested_of_trace performs
  exact ⟨names, nested, replayed, replayed ▸ nested.frames session.store⟩

/-- The output of a script begins with the texts that a run passes. -/
theorem Passes.output_begins {session : Session Script} {run : Nat → Execution}
    {record : List Exchange} (passes : session.Passes Script.console run record) :
    ∃ enough, ∀ limit, enough ≤ limit → ∃ more,
      (session.hold Script.console (run limit)).2.world.output =
        session.world.output ++ textTaken record ++ more := by
  obtain ⟨enough, settled⟩ := passes
  refine ⟨enough, fun limit le => ?_⟩
  obtain ⟨further, exchanges⟩ := settled limit le
  obtain ⟨output, _⟩ := Script.run_console (run limit session.store) session.world
  refine ⟨textTaken further, output.trans ?_⟩
  rw [String.append_assoc, ← textTaken_append, exchanges]
  rfl

/-- A script has taken what the run has written, and was asked as often as the run has
asked. -/
theorem Ends.world_eq {session after : Session Script} {run : Nat → Execution} {ending : Ending}
    {record : List Exchange} (ends : session.Ends Script.console run ending after record) :
    after.world.output = session.world.output ++ textTaken record ∧
      after.world.requests = session.world.requests + requestCount record := by
  obtain ⟨enough, settled⟩ := ends.settled
  obtain ⟨held, rfl⟩ := settled enough (Nat.le_refl enough)
  have world : after.world = ((run enough session.store).run Script.console session.world).2 :=
    congrArg (fun reached => reached.2.world) held.symm
  rw [world]
  exact Script.run_console _ _

section

variable {program : Program} {session : Session Script} {most : Nat}

/-- A program that is broken off under some limit on the turns of loops is broken off in any
case. -/
theorem brokenOff_of_exchanges {limit : Nat} {passed further : List Exchange} {text : String}
    (filled : text ≠ "")
    (fault : ((session.withLineLimit (some most)).hold Script.console (program.execute limit)).1 =
      .fails (.output "output closed"))
    (brokenRecord : (session.withLineLimit (some most)).exchanges Script.console
      (program.execute limit) = passed ++ [.told text (.error "output closed")])
    (wholeRecord : (session.withLineLimit none).exchanges Script.console
      (program.execute limit) = passed ++ .told text (.ok ()) :: further) :
    ∃ after, BrokenOff program (session.withLineLimit none) (session.withLineLimit (some most))
      passed text after := by
  have finished : ((session.withLineLimit (some most)).hold Script.console
      (program.execute limit)).1 ≠ .unfinished := by
    rw [fault]
    nofun
  have ends := ends_of_finished (fun le => program.agrees_execute le) finished
  rw [fault, brokenRecord] at ends
  have begins : passed ++ [.told text (.ok ())] <+:
      (session.withLineLimit none).exchanges Script.console (program.execute limit) := by
    rw [wholeRecord]
    exact ⟨further, List.append_assoc _ _ _⟩
  have passes := (passes_iff fun le => program.agrees_execute le).mpr ⟨limit, begins⟩
  obtain ⟨output, requests⟩ := ends.world_eq
  have lacks : ((session.withLineLimit (some most)).hold Script.console
      (program.execute limit)).2.world.output ++ text =
      (session.withLineLimit none).world.output ++ textTaken (passed ++ [.told text (.ok ())]) := by
    have refused : textTaken [.told text (.error "output closed")] = "" := rfl
    have taken : textTaken [.told text (.ok ())] = text := String.append_empty
    rw [output, textTaken_append, textTaken_append, refused, taken, String.append_empty,
      String.append_assoc]
    rfl
  refine ⟨_, filled, ends, passes, lacks, lacks ▸ passes.output_begins, ?_, ends.closesFrames⟩
  rw [requests, requestCount_append]
  rfl

/-- Under each limit on the turns of loops a limit on the lines is not felt, or the program
is broken off. -/
theorem hold_alike_or_brokenOff (program : Program) (session : Session Script)
    (most limit : Nat) :
    (∃ (ending : Ending) (after : Session Script),
      (session.withLineLimit none).hold Script.console (program.execute limit) =
          (ending, after.withLineLimit none) ∧
        (session.withLineLimit (some most)).hold Script.console (program.execute limit) =
          (ending, after.withLineLimit (some most)) ∧
        (session.withLineLimit (some most)).exchanges Script.console (program.execute limit) =
          (session.withLineLimit none).exchanges Script.console (program.execute limit)) ∨
    ∃ passed text after, BrokenOff program (session.withLineLimit none)
      (session.withLineLimit (some most)) passed text after := by
  have truncates :=
    ((program.stopsAtFault_execute limit).on session.store).truncates session.world most
  generalize whole : (program.execute limit session.store).run Script.console
    (session.world.withLineLimit none) = wholeRun at truncates
  generalize wholeRecord : (program.execute limit session.store).exchanges Script.console
    (session.world.withLineLimit none) = record at truncates
  generalize limited : (program.execute limit session.store).run Script.console
    (session.world.withLineLimit (some most)) = limitedRun at truncates
  generalize limitedRecord : (program.execute limit session.store).exchanges Script.console
    (session.world.withLineLimit (some most)) = other at truncates
  cases truncates with
  | alike result world record =>
      refine Or.inl ⟨result.1, ⟨result.2, world⟩, ?_, ?_, limitedRecord.trans wholeRecord.symm⟩
      · simp only [hold, withLineLimit, whole]
      · simp only [hold, withLineLimit, limited]
  | @broken _ _ text filled fault passed further =>
      have fails : ((session.withLineLimit (some most)).hold Script.console
          (program.execute limit)).1 = .fails (.output "output closed") := by
        simp only [hold, withLineLimit, limited, fault]
      obtain ⟨after, brokenOff⟩ := brokenOff_of_exchanges filled fails limitedRecord wholeRecord
      exact Or.inr ⟨passed, text, after, brokenOff⟩

end

/-- A limit on the lines that are written does no more to a run than to break it off.  Either
it is not felt, and both runs go on for ever with the same exchanges or end alike, or the
first text that is not taken is the last thing that the run with the limit exchanges. -/
theorem alike_or_brokenOff (program : Program) (session : Session Script) (most : Nat) :
    let sound := session.withLineLimit none
    let faulty := session.withLineLimit (some most)
    (sound.Diverges Script.console (program.execute ·) ∧
      faulty.Diverges Script.console (program.execute ·) ∧
      ∀ limit, faulty.exchanges Script.console (program.execute limit) =
        sound.exchanges Script.console (program.execute limit)) ∨
    (∃ (ending : Ending) (after : Session Script) (record : List Exchange),
      sound.Ends Script.console (program.execute ·) ending (after.withLineLimit none) record ∧
      faulty.Ends Script.console (program.execute ·) ending (after.withLineLimit (some most))
        record) ∨
    ∃ passed text after, BrokenOff program sound faulty passed text after := by
  intro sound faulty
  by_cases broken : ∃ passed text after, BrokenOff program sound faulty passed text after
  · exact Or.inr (Or.inr broken)
  have alike := fun limit =>
    (hold_alike_or_brokenOff program session most limit).resolve_right broken
  by_cases diverges : sound.Diverges Script.console (program.execute ·)
  · refine Or.inl ⟨diverges, fun limit => ?_, fun limit => ?_⟩
    · obtain ⟨ending, after, whole, limited, _⟩ := alike limit
      have unfinished := diverges limit
      rw [whole] at unfinished
      rw [limited]
      exact unfinished
    · obtain ⟨_, _, _, _, records⟩ := alike limit
      exact records
  · obtain ⟨limit, finished⟩ := Classical.not_forall.mp diverges
    obtain ⟨ending, after, whole, limited, records⟩ := alike limit
    have alsoFinished : (faulty.hold Script.console (program.execute limit)).1 ≠ .unfinished := by
      rw [whole] at finished
      rw [limited]
      exact finished
    have ends := ends_of_finished (fun le => program.agrees_execute le) finished
    have otherEnds := ends_of_finished (fun le => program.agrees_execute le) alsoFinished
    rw [whole] at ends
    rw [limited, records] at otherEnds
    exact Or.inr (Or.inl ⟨ending, after, _, ends, otherEnds⟩)

/-- The text of a line can be taken and its end not. -/
example :
    (((start (.ofAnswers [])).withLineLimit (some 1)).hold Script.console
      (Program.execute 0
        ⟨[.print (.ofParts [⟨.none, .literal (.string "a\nb")⟩]) ⟨0, 9⟩], ⟨0, 9⟩⟩)).2.world.output =
      "a\nb" := by
  rfl

end Session

end Letterline
