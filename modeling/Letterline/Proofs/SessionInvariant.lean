/-
Module: Letterline.Proofs.SessionInvariant
Purpose: What holds of the store of a session at every moment, whatever is run in it.
Trusted boundary: none
Main exports:
  Store.Sound, Store.Sound.apply, Store.Sound.replay, Instruction.settles_execute,
  Job, Session.runJobs, Session.sound_throughout
-/
import Letterline.Proofs.Nesting
import Mathlib.Data.List.Nodup

namespace Letterline

/-!
A store that comes from running programs is in order: its variables have different names,
each of them belongs to an open frame, no frame owns a name twice, and every value is that
of a scalar.  Each single operation of a run keeps this, so it holds between any two of them
and not only between instructions or programs.  It therefore does not matter how a program
ends, or what the console does, for the programs that come after it.
-/

/-! ### Stores in order -/

namespace Store

/-- A store in order. -/
structure Sound (store : Store) : Prop where
  /-- No two variables have one name. -/
  distinct : (store.table.map Variable.name).Nodup
  /-- Every variable belongs to an open frame. -/
  owned : ∀ name, store.isDeclared name → ∃ frame ∈ store.frames, name ∈ frame
  /-- No frame owns a name twice. -/
  unrepeated : ∀ frame ∈ store.frames, frame.Nodup
  /-- Every value is evaluated, and consists of one literal. -/
  settled : store.Settled

/-- An operation gives variables the values of scalars only. -/
def Operation.Settled : Operation → Prop
  | .declare _ value => ∃ scalar, value = .ofScalar scalar
  | .set _ value => ∃ scalar, value = .ofScalar scalar
  | .push => True
  | .pop => True

variable {store : Store} {name : String}

/-- The recorded name is in a frame, and so is every name that was. -/
theorem exists_frame_record {other : String} (frames : List (List String))
    (owned : other = name ∨ ∃ frame ∈ frames, other ∈ frame) :
    ∃ frame ∈ record name frames, other ∈ frame := by
  cases frames with
  | nil => simpa [record] using owned
  | cons top rest =>
      have recorded : other ∈ (record name (top :: rest)).head?.getD [] ↔
          other = name ∨ other ∈ top := mem_head_record (top :: rest)
      obtain rfl | ⟨frame, member, inside⟩ := owned
      · exact ⟨_, List.mem_cons_self, recorded.mpr (Or.inl rfl)⟩
      · obtain rfl | below := List.mem_cons.mp member
        · exact ⟨_, List.mem_cons_self, recorded.mpr (Or.inr inside)⟩
        · exact ⟨frame, List.mem_cons_of_mem _ below, inside⟩

theorem nodup_of_record {frames : List (List String)}
    (unrepeated : ∀ frame ∈ frames, frame.Nodup) :
    ∀ frame ∈ record name frames, frame.Nodup := by
  cases frames with
  | nil => simp [record]
  | cons top rest =>
      rw [record, List.forall_mem_cons] at *
      refine ⟨?_, unrepeated.2⟩
      split
      · exact unrepeated.1
      · next new =>
          rw [← List.concat_eq_append]
          exact unrepeated.1.concat new

namespace Sound

theorem empty : Store.empty.Sound :=
  ⟨List.nodup_nil, fun _ declared => False.elim (not_isDeclared_empty declared), nofun, .empty⟩

theorem declare (sound : store.Sound) (name : String) (scalar : Scalar) :
    (store.declare name (.ofScalar scalar)).Sound where
  distinct := by
    by_cases declared : store.isDeclared name
    · have table : (store.declare name (.ofScalar scalar)).table =
          replace name (.ofScalar scalar) store.table := if_pos declared
      rw [table, map_name_replace]
      exact sound.distinct
    · have table : (store.declare name (.ofScalar scalar)).table =
          store.table ++ [⟨name, .ofScalar scalar⟩] := if_neg declared
      rw [table, List.map_append, List.map_singleton, ← List.concat_eq_append]
      exact sound.distinct.concat fun member => declared (isDeclared_iff.mpr member)
  owned other declared :=
    exists_frame_record store.frames
      ((isDeclared_declare.mp declared).imp_right (sound.owned other))
  unrepeated := nodup_of_record sound.unrepeated
  settled := sound.settled.declare name scalar

theorem set (sound : store.Sound) (name : String) (scalar : Scalar) :
    (store.set name (.ofScalar scalar)).Sound where
  distinct := by
    rw [Store.set, map_name_replace]
    exact sound.distinct
  owned other declared := sound.owned other (isDeclared_set.mp declared)
  unrepeated := sound.unrepeated
  settled := sound.settled.set name scalar

theorem push (sound : store.Sound) : store.push.Sound where
  distinct := sound.distinct
  owned name declared := by
    obtain ⟨frame, member, inside⟩ := sound.owned name declared
    exact ⟨frame, List.mem_cons_of_mem _ member, inside⟩
  unrepeated := List.forall_mem_cons.mpr ⟨List.nodup_nil, sound.unrepeated⟩
  settled := sound.settled.push

/-- A variable that the top frame does not own belongs to a frame below it. -/
theorem pop (sound : store.Sound) : store.pop.Sound where
  distinct := by
    rw [table_pop, map_name_without]
    exact sound.distinct.filter _
  owned name declared := by
    obtain ⟨live, outside⟩ := isDeclared_pop.mp declared
    obtain ⟨frame, member, inside⟩ := sound.owned name live
    rw [frames_pop]
    refine ⟨frame, ?_, inside⟩
    rw [topNames] at outside
    cases frames : store.frames with
    | nil => rw [frames] at member; cases member
    | cons top rest =>
        rw [frames] at member outside
        obtain rfl | below := List.mem_cons.mp member
        · exact False.elim (outside inside)
        · exact below
  unrepeated frame member := by
    rw [frames_pop] at member
    exact sound.unrepeated frame (List.mem_of_mem_tail member)
  settled := sound.settled.pop

/-- Every operation keeps a store in order. -/
theorem apply {operation : Operation} (sound : store.Sound) (settled : operation.Settled) :
    (operation.apply store).Sound := by
  cases operation with
  | declare name value => obtain ⟨scalar, rfl⟩ := settled; exact sound.declare name scalar
  | set name value => obtain ⟨scalar, rfl⟩ := settled; exact sound.set name scalar
  | push => exact sound.push
  | pop => exact sound.pop

/-- So a history keeps it in order. -/
theorem replay {history : List Operation} (settled : ∀ operation ∈ history, operation.Settled) :
    ∀ {store : Store}, store.Sound → (Store.replay history store).Sound := by
  induction history with
  | nil => exact id
  | cons first rest inductionHypothesis =>
      rw [List.forall_mem_cons] at settled
      exact fun sound => inductionHypothesis settled.2 (sound.apply settled.1)

end Sound

theorem Nested.settled {names : List String} {operations : List Operation}
    (nested : Nested names operations) : ∀ operation ∈ operations, operation.Settled := by
  induction nested with
  | nil => nofun
  | declare name scalar _ inductionHypothesis =>
      exact List.forall_mem_cons.mpr ⟨⟨scalar, rfl⟩, inductionHypothesis⟩
  | set name scalar _ inductionHypothesis =>
      exact List.forall_mem_cons.mpr ⟨⟨scalar, rfl⟩, inductionHypothesis⟩
  | frame _ _ insideHypothesis furtherHypothesis =>
      refine List.forall_mem_cons.mpr ⟨trivial, List.forall_mem_append.mpr ⟨insideHypothesis, ?_⟩⟩
      exact List.forall_mem_cons.mpr ⟨trivial, furtherHypothesis⟩

/-- Operations that close the frames that they open leave one frame open at most where
there was at most one. -/
theorem Nested.depth_le {names : List String} {operations : List Operation}
    (nested : Nested names operations) (shallow : store.depth ≤ 1) :
    (Store.replay operations store).depth ≤ 1 := by
  rw [depth, nested.frames]
  exact Nat.le_trans (length_recordAll names store.frames) (Nat.max_le.mpr ⟨Nat.le_refl 1, shallow⟩)

end Store

/-! ### Every variable that is read is evaluated -/

section Evaluated

variable {store : Store} {name : String}

theorem Value.evaluated_of_result {value : Value} (settled : store.Settled) :
    ¬ (value.result store).run.MayEnd (.error (.unevaluatedVariable name)) := by
  intro fails
  obtain ⟨read, _, fault⟩ := lookup_of_result rfl fails
  exact settled.lookupFault_ne read fault

theorem Condition.evaluated_of_evaluate {condition : Condition} (settled : store.Settled) :
    ¬ (condition.evaluate store).run.MayEnd (.error (.unevaluatedVariable name)) := by
  intro fails
  obtain ⟨_, _, read, _, fault⟩ := lookup_of_evaluate rfl fails
  exact settled.lookupFault_ne read fault

theorem Modification.evaluated_of_newValue {target : String} {modification : Modification}
    (settled : store.Settled) :
    ¬ (modification.newValue target store).run.MayEnd (.error (.unevaluatedVariable name)) := by
  intro fails
  obtain ⟨read, _, fault⟩ := lookup_of_newValue settled rfl fails
  exact settled.lookupFault_ne read fault

end Evaluated

/-- An execution that leaves values evaluated and reports none that is not. -/
structure Execution.Settles (execution : Execution) : Prop where
  settled : ∀ {store after : Store} {ending : Ending}, store.Settled →
    (execution store).MayEnd (ending, after) → after.Settled
  evaluated : ∀ {store after : Store} {ending : Ending} {name : String}, store.Settled →
    (execution store).MayEnd (ending, after) → ending ≠ .fails (.unevaluatedVariable name)

namespace Execution.Settles

variable {α : Type} {limit : Nat} {body first second : Execution}

theorem still {ending : Ending}
    (evaluated : ∀ name, ending ≠ .fails (.unevaluatedVariable name)) :
    Settles fun store => .done (ending, store) where
  settled := by rintro _ _ _ settled ⟨⟩; exact settled
  evaluated := by rintro _ _ _ name _ ⟨⟩; exact evaluated name

theorem print (text : String) : Settles (Execution.print text) where
  settled settled ends := (mayEnd_print ends).1 ▸ settled
  evaluated _ ends := by
    obtain ⟨_, rfl | ⟨reason, rfl⟩⟩ := mayEnd_print ends <;> nofun

theorem declare (name : String) (scalar : Scalar) : Settles (Execution.declare name scalar) where
  settled := by rintro _ _ _ settled ⟨⟩; exact settled.declare name scalar
  evaluated := by rintro _ _ _ _ _ ⟨⟩; nofun

theorem assign (name : String) (scalar : Scalar) :
    Settles (Execution.assign name (.ofScalar scalar)) where
  settled := by rintro _ _ _ settled ⟨⟩; exact settled.set name scalar
  evaluated := by rintro _ _ _ _ _ ⟨⟩; nofun

theorem inFrame (inside : Settles body) : Settles (Execution.inFrame body) where
  settled settled ends := by
    obtain ⟨_, bodyEnds, rfl⟩ := mayEnd_inFrame.mp ends
    exact (inside.settled settled.push bodyEnds).pop
  evaluated settled ends := by
    obtain ⟨_, bodyEnds, rfl⟩ := mayEnd_inFrame.mp ends
    exact inside.evaluated settled.push bodyEnds

theorem andThen (firstSettles : Settles first) (secondSettles : Settles second) :
    Settles (Execution.andThen first second) where
  settled settled ends := by
    obtain ⟨_, firstEnds, secondEnds⟩ | ⟨_, firstEnds⟩ := mayEnd_andThen.mp ends
    · exact secondSettles.settled (firstSettles.settled settled firstEnds) secondEnds
    · exact firstSettles.settled settled firstEnds
  evaluated settled ends := by
    obtain ⟨_, firstEnds, secondEnds⟩ | ⟨_, firstEnds⟩ := mayEnd_andThen.mp ends
    · exact secondSettles.evaluated (firstSettles.settled settled firstEnds) secondEnds
    · exact firstSettles.evaluated settled firstEnds

theorem given {evaluation : Store → Evaluation α} {body : α → Execution}
    (evaluated : ∀ {store : Store} {name : String}, store.Settled →
      ¬ (evaluation store).run.MayEnd (.error (.unevaluatedVariable name)))
    (bodySettles : ∀ {store : Store} {result : α},
      (evaluation store).run.MayEnd (.ok result) → Settles (body result)) :
    Settles (Execution.given evaluation body) where
  settled settled ends := by
    obtain ⟨_, evaluates, bodyEnds⟩ | ⟨_, _, _, rfl⟩ := mayEnd_given.mp ends
    · exact (bodySettles evaluates).settled settled bodyEnds
    · exact settled
  evaluated settled ends := by
    obtain ⟨_, evaluates, bodyEnds⟩ | ⟨_, fails, rfl, _⟩ := mayEnd_given.mp ends
    · exact (bodySettles evaluates).evaluated settled bodyEnds
    · rintro ⟨⟩
      exact evaluated settled fails

theorem repeatWhile {condition : Condition} (inside : Settles body) :
    Settles (Execution.repeatWhile limit condition.evaluate body) where
  settled settled ends := by
    obtain ⟨_, turns, lastTurn⟩ := mayEnd_repeatWhile ends
    have held := turns.invariant inside.settled settled
    cases lastTurn with
    | left _ _ bodyEnds => exact inside.settled held bodyEnds
    | _ => exact held
  evaluated settled ends :=
    ne_fails_of_repeatWhile Store.Settled inside.settled Condition.evaluated_of_evaluate
      (fun _ _ _ held => inside.evaluated held) settled ends

end Execution.Settles

namespace Instruction

open Execution

variable {limit : Nat}

mutual

/-- Running an instruction leaves values evaluated and reports none that is not. -/
theorem settles_execute : ∀ instruction : Instruction, Settles (execute limit instruction)
  | .exit _ => .still nofun
  | .print _ _ => .given Value.evaluated_of_result fun _ => .print _
  | .declare name _ _ => .given Value.evaluated_of_result fun _ => .declare name _
  | .modify name modification _ => by
      refine .given Modification.evaluated_of_newValue fun evaluates => ?_
      obtain ⟨scalar, rfl⟩ := modification.newValue_settled evaluates
      exact .assign name scalar
  | .branch _ thenBody none _ => by
      refine .inFrame (.given Condition.evaluated_of_evaluate fun {_ truth} _ => ?_)
      cases truth with
      | true => exact settles_executeAll thenBody
      | false => exact .still nofun
  | .branch _ thenBody (some elseBody) _ => by
      refine .inFrame (.given Condition.evaluated_of_evaluate fun {_ truth} _ => ?_)
      cases truth with
      | true => exact settles_executeAll thenBody
      | false => exact settles_executeAll elseBody
  | .whileLoop _ body _ => .repeatWhile (.inFrame (settles_executeAll body))
  | .forLoop init _ update body _ =>
      .inFrame (.andThen (settles_executeAll init)
        (.repeatWhile
          (.inFrame (.andThen (settles_executeAll body) (settles_executeAll update)))))

/-- So does running instructions in a row. -/
theorem settles_executeAll : ∀ body : List Instruction, Settles (executeAll limit body)
  | [] => .still nofun
  | instruction :: rest => .andThen (settles_execute instruction) (settles_executeAll rest)

end

end Instruction

/-- What a program does to the store closes every frame that it opens. -/
theorem Program.nested_of_trace {limit : Nat} {program : Program} {store : Store}
    {ending : Ending} {operations : List Store.Operation}
    (ends : (program.trace limit store).MayEnd (ending, operations)) :
    ∃ names, Store.Nested names operations := by
  rw [Program.trace, Dialogue.bind_eq, Dialogue.mayEnd_bind] at ends
  obtain ⟨⟨bodyEnding, performed⟩, bodyEnds, flushed⟩ := ends
  have nested := Instruction.nested_of_traceAll bodyEnds
  cases bodyEnding with
  | fails error => cases flushed; exact nested
  | unfinished => cases flushed; exact nested
  | proceeds => obtain ⟨_ | _, same⟩ := flushed <;> cases same <;> exact nested
  | exits => obtain ⟨_ | _, same⟩ := flushed <;> cases same <;> exact nested

/-! ### Sessions -/

/-- Something to run in a session. -/
inductive Job where
  /-- A source, which runs if it can be read and the checks find no error. -/
  | source (text : String)
  /-- A program, which runs if the checks find no error. -/
  | checked (program : Program)
  /-- A program, which runs whatever the checks find. -/
  | unchecked (program : Program)

namespace Job

/-- The program that a job runs, or why it runs none. -/
def prepare : Job → Except Rejection Program
  | .source text => Program.prepare text
  | .checked program =>
      if program.errors.isEmpty then .ok program else .error (.invalid program.errors)
  | .unchecked program => .ok program

/-- Runs a job and keeps what it does to the store. -/
def trace (limit : Nat) (job : Job) : Tracing :=
  match job.prepare with
  | .error _ => .still .proceeds
  | .ok program => program.trace limit

theorem nested_of_trace {limit : Nat} {job : Job} {store : Store} {ending : Ending}
    {operations : List Store.Operation}
    (ends : (job.trace limit store).MayEnd (ending, operations)) :
    ∃ names, Store.Nested names operations := by
  rw [trace] at ends
  cases prepared : job.prepare with
  | error rejection =>
      rw [prepared] at ends
      cases ends
      exact ⟨_, .nil⟩
  | ok program =>
      rw [prepared] at ends
      exact Program.nested_of_trace ends

end Job

namespace Session

variable {σ : Type}

/-- Runs a job. -/
def runJob (console : Console σ) (limit : Nat) (job : Job) (session : Session σ) :
    Outcome × Session σ :=
  match job with
  | .source text => session.runSource console limit text
  | .checked program => session.runChecked console limit program
  | .unchecked program => session.runProgram console limit program

/-- Runs jobs one after the other, whatever comes of each. -/
def runJobs (console : Console σ) (limit : Nat) (jobs : List Job) (session : Session σ) :
    Session σ :=
  jobs.foldl (fun session job => (session.runJob console limit job).2) session

/-- A job runs its program if it has one. -/
theorem runJob_eq (console : Console σ) (limit : Nat) (job : Job) (session : Session σ) :
    session.runJob console limit job =
      match job.prepare with
      | .error rejection => (.ofRejection rejection, session)
      | .ok program => session.runProgram console limit program := by
  cases job with
  | source text => rfl
  | checked program =>
      rw [runJob, runChecked, Job.prepare]
      split <;> rfl
  | unchecked program => rfl

/-- A job leaves the store that its operations lead to. -/
theorem store_runJob (console : Console σ) (limit : Nat) (job : Job) (session : Session σ) :
    (session.runJob console limit job).2.store =
      Store.replay (session.performed console (job.trace limit)) session.store := by
  rw [runJob_eq, Job.trace]
  split
  · rfl
  · next program _ =>
      rw [← store_hold, Program.execution_trace]
      rfl

/-- A program that stops at a fault has a run that ends with it. -/
theorem mayEnd_of_stopped {console : Console σ} {limit : Nat} {program : Program}
    {session : Session σ} {error : RuntimeError}
    (stopped : (session.runProgram console limit program).1 = .failed (.stopped error)) :
    ∃ after, (program.execute limit session.store).MayEnd (.fails error, after) := by
  have ends := Dialogue.mayEnd_run console (program.execute limit session.store) session.world
  rw [runProgram, hold] at stopped
  rcases reached : (program.execute limit session.store).run console session.world with
    ⟨⟨ending, after⟩, world⟩
  rw [reached] at ends stopped
  cases ending with
  | fails reported =>
      cases stopped
      exact ⟨after, ends⟩
  | _ => cases stopped

/-- No job stops at a variable that has not been evaluated. -/
theorem evaluated_of_runJob {console : Console σ} {limit : Nat} {session : Session σ}
    (settled : session.store.Settled) (job : Job) (name : String) :
    (session.runJob console limit job).1 ≠ .failed (.stopped (.unevaluatedVariable name)) := by
  intro stopped
  rw [runJob_eq] at stopped
  split at stopped
  · next rejection _ => cases rejection <;> cases stopped
  · next program _ =>
      obtain ⟨after, ends⟩ := mayEnd_of_stopped stopped
      obtain ⟨_, bodyEnds, rfl | ⟨reason, impossible⟩⟩ := Program.mayEnd_execute ends
      · exact (Instruction.settles_executeAll program.instructions).evaluated settled bodyEnds rfl
      · cases impossible

/-- At any moment of a job the store is in order, if it was before. -/
theorem sound_of_performed {console : Console σ} {limit : Nat} {session : Session σ}
    (sound : session.store.Sound) (job : Job) {done due : List Store.Operation}
    (moment : session.performed console (job.trace limit) = done ++ due) :
    (Store.replay done session.store).Sound := by
  obtain ⟨_, ends⟩ := session.mayEnd_performed console (job.trace limit)
  obtain ⟨_, nested⟩ := Job.nested_of_trace ends
  refine Store.Sound.replay (fun operation member => nested.settled operation ?_) sound
  rw [moment]
  exact List.mem_append_left due member

/-- Between jobs the store is in order and at most one frame is open. -/
theorem sound_of_runJobs (console : Console σ) (limit : Nat) (world : σ) (jobs : List Job) :
    ((start world).runJobs console limit jobs).store.Sound ∧
      ((start world).runJobs console limit jobs).store.depth ≤ 1 := by
  induction jobs using List.reverseRecOn with
  | nil => exact ⟨.empty, Nat.zero_le 1⟩
  | append_singleton jobs job inductionHypothesis =>
      obtain ⟨sound, shallow⟩ := inductionHypothesis
      rw [runJobs, List.foldl_concat, ← runJobs, store_runJob]
      obtain ⟨_, ends⟩ := Session.mayEnd_performed console (job.trace limit)
        ((start world).runJobs console limit jobs)
      obtain ⟨_, nested⟩ := Job.nested_of_trace ends
      exact ⟨.replay nested.settled sound, nested.depth_le shallow⟩

/-- However many jobs were run in a session that began with an empty store, and whatever
came of each of them on whatever console, at most one frame is open before the next one.
Through all that this one does to the store, the store is in order at every moment, and no
variable is found unevaluated. -/
theorem sound_throughout (console : Console σ) (limit : Nat) (world : σ) (earlier : List Job)
    (job : Job) :
    let session := (start world).runJobs console limit earlier
    session.store.depth ≤ 1 ∧
    (session.runJob console limit job).2.store =
      Store.replay (session.performed console (job.trace limit)) session.store ∧
    (∀ done due, session.performed console (job.trace limit) = done ++ due →
      (Store.replay done session.store).Sound) ∧
    ∀ name, (session.runJob console limit job).1 ≠
      .failed (.stopped (.unevaluatedVariable name)) := by
  intro session
  obtain ⟨sound, shallow⟩ := sound_of_runJobs console limit world earlier
  exact ⟨shallow, store_runJob console limit job session,
    fun _ _ moment => sound_of_performed sound job moment,
    evaluated_of_runJob sound.settled job⟩

end Session
end Letterline
