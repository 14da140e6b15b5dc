/-
Module: Letterline.Proofs.Concatenation
Purpose: Sources written one behind the other run one after the other.
Trusted boundary: none
Main exports:
  Program.parse_append, Console.FlushesUnseen, Dialogue.run_alike,
  Program.execute_of_append, Session.StopsWith, Session.GoesOnWith,
  Session.concatenation_runs_in_turn
-/
import Letterline.Proofs.ForLoop
import Letterline.Proofs.ParserComplete
import Letterline.Proofs.Relocation
import Letterline.Proofs.Sequence

namespace Letterline

/-!
The parser looks ahead behind an instruction that could go on, so the text that follows
could change how the one before is read.  The grammar says that it does not: phrases in a
row are the phrases of both texts, and the second ones stand further to the right.

A run of the whole differs from two runs in turn in one thing.  The first of these flushes
the console before the second begins, and the whole does not.  So the runs do the same on a
console that flushes and does not show later that it did.  Where the first program does not
come to its end the whole does the same on every console.
-/

/-! ### Reading -/

/-- What is read from two sources that can be read is read from both together: the
instructions of the first, and those of the second further to the right. -/
theorem Program.parse_append {first second : String} {front back : Program}
    (readFirst : Program.parse first = .ok front) (readSecond : Program.parse second = .ok back) :
    Program.parse (first ++ second) =
      .ok ⟨front.instructions ++ Instruction.movedAll (· + first.length) back.instructions,
        ⟨0, (first ++ second).length⟩⟩ := by
  obtain ⟨filled, spacelessFirst, phrases, text, rfl⟩ := exists_phrase_of_parse readFirst
  obtain ⟨_, spacelessSecond, others, otherText, rfl⟩ := exists_phrase_of_parse readSecond
  have wholeText : (ProgramPhrase.mk (phrases.instructions ++ others.instructions)).text =
      (first ++ second).toList := by
    rw [ProgramPhrase.text, InstructionPhrase.textAll_append, String.toList_append, ← text,
      ← otherText, ProgramPhrase.text, ProgramPhrase.text]
  have wholeFilled : (first ++ second).toList ≠ [] := by
    rw [String.toList_append]
    exact List.append_ne_nil_of_left_ne_nil filled _
  have wholeSpaceless : ' ' ∉ (first ++ second).toList := by
    rw [String.toList_append, List.mem_append]
    exact fun found => found.elim spacelessFirst spacelessSecond
  have length : (InstructionPhrase.textAll phrases.instructions).length = first.length := by
    rw [← String.length_toList, ← text, ProgramPhrase.text]
  have shifts := Shifts.right first.length 0
  rw [parse_of_phrase _ wholeText wholeFilled wholeSpaceless, ProgramPhrase.program,
    ProgramPhrase.program, ProgramPhrase.program, wholeText,
    InstructionPhrase.instructions_append, length,
    InstructionPhrase.moved_instructions shifts, Span.over, String.length_toList,
    Nat.zero_add (first ++ second).length]

/-! ### Consoles on which a flush is not seen -/

/-- Every flush succeeds, and no answer tells whether the console was flushed before.  Two
states are alike if nothing but flushes makes them different. -/
structure Console.FlushesUnseen {σ : Type} (console : Console σ) (alike : σ → σ → Prop) :
    Prop where
  symm : ∀ {here there : σ}, alike here there → alike there here
  answer : ∀ {here there : σ}, alike here there →
    (console.answer here).1 = (console.answer there).1 ∧
      alike (console.answer here).2 (console.answer there).2
  write : ∀ (text : String) {here there : σ}, alike here there →
    (console.write text here).1 = (console.write text there).1 ∧
      alike (console.write text here).2 (console.write text there).2
  flush : ∀ {here there : σ}, alike here there →
    (console.flush there).1 = .ok () ∧ alike here (console.flush there).2

namespace Dialogue

variable {α σ : Type} {console : Console σ}

/-- A dialogue goes the same way in states that are alike. -/
theorem run_alike {alike : σ → σ → Prop} (unseen : console.FlushesUnseen alike)
    (dialogue : Dialogue α) {here there : σ} (same : alike here there) :
    (dialogue.run console here).1 = (dialogue.run console there).1 ∧
      alike (dialogue.run console here).2 (dialogue.run console there).2 ∧
      dialogue.exchanges console here = dialogue.exchanges console there := by
  induction dialogue generalizing here there with
  | done result => exact ⟨rfl, same, rfl⟩
  | ask next inductionHypothesis =>
      obtain ⟨answers, after⟩ := unseen.answer same
      obtain ⟨results, worlds, records⟩ :=
        inductionHypothesis (console.answer here).1 after
      simp only [run, exchanges, ← answers]
      exact ⟨results, worlds, congrArg _ records⟩
  | tell text next inductionHypothesis =>
      obtain ⟨answers, after⟩ := unseen.write text same
      obtain ⟨results, worlds, records⟩ :=
        inductionHypothesis (console.write text here).1 after
      simp only [run, exchanges, ← answers]
      exact ⟨results, worlds, congrArg _ records⟩
  | flush next inductionHypothesis =>
      obtain ⟨succeedsThere, flushedThere⟩ := unseen.flush same
      obtain ⟨succeedsHere, flushedBoth⟩ := unseen.flush (unseen.symm flushedThere)
      obtain ⟨results, worlds, records⟩ :=
        inductionHypothesis (.ok ()) (unseen.symm flushedBoth)
      simp only [run, exchanges, succeedsHere, succeedsThere]
      exact ⟨results, worlds, congrArg _ records⟩

end Dialogue

/-! ### Programs as instructions and a last step -/

namespace Execution

/-- What a program does when its instructions have ended: the console is flushed, unless they
failed. -/
def close : Ending → Execution
  | .fails error => fun store => .done (.fails error, store)
  | .unfinished => fun store => .done (.unfinished, store)
  | ending => fun store => .flush fun
      | .ok () => .done (ending, store)
      | .error reason => .done (.fails (.output reason), store)

end Execution

namespace Program

open Execution Instruction

theorem execute_eq_thenBy_close (limit : Nat) (program : Program) :
    program.execute limit = thenBy (executeAll limit program.instructions) close := by
  funext store
  rw [Program.execute, thenBy, Dialogue.bind_eq]
  congr 1
  funext reached
  rcases reached with ⟨ending, after⟩
  cases ending <;> rfl

/-- A program in two parts runs the first part.  If that proceeds it runs the second part as a
program, and otherwise it closes. -/
theorem execute_of_append {whole back : Program} {first : List Instruction} {move : Nat → Nat}
    (joined : whole.instructions = first ++ movedAll move back.instructions) (limit : Nat) :
    whole.execute limit =
      thenBy (executeAll limit first) (ifProceeds (back.execute limit) close) := by
  rw [execute_eq_thenBy_close, joined, executeAll_append, executeAll_movedAll,
    andThen_eq_thenBy, thenBy_assoc, execute_eq_thenBy_close]
  congr 1
  funext ending
  cases ending <;> rfl

end Program

/-! ### Sessions -/

/-- The exchanges without the flushes: the requests for input with their answers and the
texts written, in order. -/
def withoutFlushes (record : List Exchange) : List Exchange :=
  record.filter fun
    | .flushed _ => false
    | _ => true

theorem withoutFlushes_append (first second : List Exchange) :
    withoutFlushes (first ++ second) = withoutFlushes first ++ withoutFlushes second :=
  List.filter_append first second

theorem withoutFlushes_flushed (answer : Except String Unit) :
    withoutFlushes [.flushed answer] = [] :=
  rfl

namespace Session

open Execution

variable {σ : Type} {console : Console σ} {alike : σ → σ → Prop} {session : Session σ}

/-- The sessions have the same store, and consoles that are alike. -/
structure SameUpTo (alike : σ → σ → Prop) (here there : Session σ) : Prop where
  store : here.store = there.store
  world : alike here.world there.world

/-- An execution goes the same way in sessions that are the same up to flushes. -/
theorem hold_sameUpTo (unseen : console.FlushesUnseen alike) (execution : Execution)
    {here there : Session σ} (same : here.SameUpTo alike there) :
    (here.hold console execution).1 = (there.hold console execution).1 ∧
      (here.hold console execution).2.SameUpTo alike (there.hold console execution).2 ∧
      here.exchanges console execution = there.exchanges console execution := by
  obtain ⟨results, worlds, records⟩ :=
    Dialogue.run_alike unseen (execution here.store) same.world
  rw [same.store] at results worlds records
  simp only [hold, exchanges, same.store, results]
  exact ⟨trivial, ⟨rfl, worlds⟩, records⟩

/-- To close a program whose instructions came to their end is to flush. -/
theorem hold_close_proceeds (console : Console σ) (session : Session σ) :
    (session.hold console (close .proceeds) =
        (.proceeds, ⟨session.store, (console.flush session.world).2⟩) ∧
      session.exchanges console (close .proceeds) = [.flushed (.ok ())]) ∨
    ∃ reason, (session.hold console (close .proceeds)).1 = .fails (.output reason) ∧
      session.exchanges console (close .proceeds) = [.flushed (.error reason)] := by
  simp only [hold, exchanges, close, Dialogue.run, Dialogue.exchanges]
  cases (console.flush session.world).1 with
  | ok done => exact Or.inl ⟨rfl, rfl⟩
  | error reason => exact Or.inr ⟨reason, rfl, rfl⟩

/-- A program that comes to its end has not stopped before it is closed. -/
theorem eq_proceeds_of_hold_close {ending : Ending}
    (proceeds : (session.hold console (close ending)).1 = .proceeds) : ending = .proceeds := by
  cases ending with
  | proceeds => rfl
  | fails error => exact proceeds
  | unfinished => exact proceeds
  | exits =>
      simp only [hold, close, Dialogue.run] at proceeds
      split at proceeds <;> cases proceeds

section Limit

variable {limit : Nat} {whole front back : Program} {move : Nat → Nat}

/-- If the first part stops on the way, the whole does what it does. -/
theorem hold_whole_of_stops
    (joined : whole.instructions =
      front.instructions ++ Instruction.movedAll move back.instructions)
    (stops : (session.hold console
      (Instruction.executeAll limit front.instructions)).1 ≠ .proceeds) :
    session.hold console (whole.execute limit) = session.hold console (front.execute limit) ∧
      session.exchanges console (whole.execute limit) =
        session.exchanges console (front.execute limit) := by
  rw [Program.execute_of_append joined, Program.execute_eq_thenBy_close limit front,
    hold_thenBy, hold_thenBy, exchanges_thenBy, exchanges_thenBy, ifProceeds_of_ne stops]
  exact ⟨rfl, rfl⟩

/-- A program whose instructions come to their end comes to its own, or a flush fails. -/
theorem proceeds_or_flush_fails
    (proceeds : (session.hold console
      (Instruction.executeAll limit front.instructions)).1 = .proceeds) :
    (session.hold console (front.execute limit)).1 = .proceeds ∨
      ∃ reason, (session.hold console (front.execute limit)).1 = .fails (.output reason) ∧
        .flushed (.error reason) ∈ session.exchanges console (front.execute limit) := by
  rw [Program.execute_eq_thenBy_close, hold_thenBy, exchanges_thenBy, proceeds]
  rcases hold_close_proceeds console
    (session.hold console (Instruction.executeAll limit front.instructions)).2 with
    ⟨closed, _⟩ | ⟨reason, failed, record⟩
  · exact Or.inl (congrArg Prod.fst closed)
  · refine Or.inr ⟨reason, failed, List.mem_append_right _ ?_⟩
    rw [record]
    exact List.mem_singleton_self _

/-- A program that comes to its end has flushed after its last instruction. -/
theorem exists_before_flush (unseen : console.FlushesUnseen alike)
    (fit : alike session.world session.world) {middle : Session σ}
    (proceeds : session.hold console (front.execute limit) = (.proceeds, middle)) :
    ∃ inner, inner.SameUpTo alike middle ∧
      session.hold console (Instruction.executeAll limit front.instructions) =
        (.proceeds, inner) ∧
      session.exchanges console (front.execute limit) =
        session.exchanges console (Instruction.executeAll limit front.instructions) ++
          [.flushed (.ok ())] := by
  obtain ⟨_, same, _⟩ := hold_sameUpTo unseen
    (Instruction.executeAll limit front.instructions) (SameUpTo.mk rfl fit)
  rw [Program.execute_eq_thenBy_close, hold_thenBy] at proceeds
  rw [Program.execute_eq_thenBy_close, exchanges_thenBy]
  generalize session.hold console (Instruction.executeAll limit front.instructions) = reached
    at same proceeds ⊢
  obtain ⟨ending, inner⟩ := reached
  obtain rfl : ending = .proceeds := eq_proceeds_of_hold_close (congrArg Prod.fst proceeds)
  rcases hold_close_proceeds console inner with ⟨closed, record⟩ | ⟨reason, failed, _⟩
  · obtain rfl : ⟨inner.store, (console.flush inner.world).2⟩ = middle :=
      congrArg Prod.snd (closed.symm.trans proceeds)
    exact ⟨inner, ⟨rfl, (unseen.flush same.world).2⟩, rfl, congrArg _ record⟩
  · rw [proceeds] at failed
    cases failed

/-- If the first part comes to its end, the whole does from there what the second part does,
up to flushes. -/
theorem hold_whole_of_proceeds (unseen : console.FlushesUnseen alike)
    (fit : alike session.world session.world)
    (joined : whole.instructions =
      front.instructions ++ Instruction.movedAll move back.instructions)
    {middle : Session σ}
    (proceeds : session.hold console (front.execute limit) = (.proceeds, middle)) :
    (session.hold console (whole.execute limit)).1 =
        (middle.hold console (back.execute limit)).1 ∧
      (session.hold console (whole.execute limit)).2.SameUpTo alike
        (middle.hold console (back.execute limit)).2 ∧
      withoutFlushes (session.exchanges console (whole.execute limit)) =
        withoutFlushes (session.exchanges console (front.execute limit) ++
          middle.exchanges console (back.execute limit)) := by
  obtain ⟨inner, unflushed, reached, record⟩ := exists_before_flush unseen fit proceeds
  obtain ⟨endings, sessions, records⟩ := hold_sameUpTo unseen (back.execute limit) unflushed
  rw [Program.execute_of_append joined, hold_thenBy, exchanges_thenBy, reached, ifProceeds]
  refine ⟨endings, sessions, ?_⟩
  rw [record, records, withoutFlushes_append, withoutFlushes_append, withoutFlushes_append,
    withoutFlushes_flushed, List.append_nil]

end Limit

/-- The whole run does what the first one does, if that one goes on for ever, or if it ends
before the end of its program and no flush failed. -/
structure StopsWith (console : Console σ) (session : Session σ)
    (whole first : Nat → Execution) : Prop where
  diverges : session.Diverges console first → session.Diverges console whole
  ends : ∀ {ending : Ending} {after : Session σ} {record : List Exchange},
    session.Ends console first ending after record → ending ≠ .proceeds →
      (∀ reason, .flushed (.error reason) ∉ record) →
        session.Ends console whole ending after record

/-- If the first run comes to the end of its program, the whole run does after it what the
second one does: it goes on for ever, or it ends in the same way, with the same store, after
the same requests for input, with the same answers, and with the same texts written. -/
structure GoesOnWith (console : Console σ) (alike : σ → σ → Prop) (session : Session σ)
    (whole first second : Nat → Execution) : Prop where
  diverges : ∀ {middle : Session σ} {record : List Exchange},
    session.Ends console first .proceeds middle record → middle.Diverges console second →
      session.Diverges console whole
  ends : ∀ {middle after : Session σ} {ending : Ending} {record further : List Exchange},
    session.Ends console first .proceeds middle record →
      middle.Ends console second ending after further →
        ∃ last joint, session.Ends console whole ending last joint ∧
          last.SameUpTo alike after ∧
          withoutFlushes joint = withoutFlushes (record ++ further)

section Append

variable {whole front back : Program} {move : Nat → Nat}

theorem stopsWith_of_append
    (joined : whole.instructions =
      front.instructions ++ Instruction.movedAll move back.instructions) :
    session.StopsWith console whole.execute front.execute where
  diverges unending limit := by
    have stops : (session.hold console
        (Instruction.executeAll limit front.instructions)).1 ≠ .proceeds := by
      intro proceeds
      have held := unending limit
      rcases proceeds_or_flush_fails proceeds with same | ⟨_, same, _⟩
      · exact nomatch same.symm.trans held
      · exact nomatch same.symm.trans held
    rw [(hold_whole_of_stops joined stops).1, unending limit]
  ends := by
    intro ending after record ends stopped unbroken
    obtain ⟨enough, settled⟩ := ends.settled
    refine ⟨ends.finished, enough, fun limit le => ?_⟩
    obtain ⟨held, recorded⟩ := settled limit le
    have stops : (session.hold console
        (Instruction.executeAll limit front.instructions)).1 ≠ .proceeds := by
      intro proceeds
      rcases proceeds_or_flush_fails proceeds with same | ⟨reason, _, broken⟩
      · rw [held] at same
        exact stopped same
      · rw [recorded] at broken
        exact unbroken reason broken
    obtain ⟨same, sameRecord⟩ := hold_whole_of_stops joined stops
    exact ⟨same.trans held, sameRecord.trans recorded⟩

theorem goesOnWith_of_append (unseen : console.FlushesUnseen alike)
    (fit : alike session.world session.world)
    (joined : whole.instructions =
      front.instructions ++ Instruction.movedAll move back.instructions) :
    session.GoesOnWith console alike whole.execute front.execute back.execute where
  diverges := by
    intro middle record ends unending limit
    obtain ⟨enough, settled⟩ := ends.settled
    refine Classical.byContradiction fun finished => ?_
    -- a limit that is high enough for the first part leaves the whole unfinished
    have same := (hold_of_agrees
      (whole.agrees_execute (Nat.le_max_left limit enough)) finished).1
    have later := (hold_whole_of_proceeds unseen fit joined
      (settled (max limit enough) (Nat.le_max_right _ _)).1).1
    rw [same, unending] at later
    exact finished later
  ends := by
    intro middle after ending record further ends endsSecond
    obtain ⟨enough, settled⟩ := ends.settled
    obtain ⟨enoughSecond, settledSecond⟩ := endsSecond.settled
    -- a limit that is high enough for both parts is for the whole
    obtain ⟨held, recorded⟩ := settled (max enough enoughSecond) (Nat.le_max_left _ _)
    obtain ⟨heldSecond, recordedSecond⟩ :=
      settledSecond (max enough enoughSecond) (Nat.le_max_right _ _)
    obtain ⟨endings, sessions, records⟩ := hold_whole_of_proceeds unseen fit joined held
    rw [heldSecond] at endings sessions
    rw [recorded, recordedSecond] at records
    have finished : (session.hold console
        (whole.execute (max enough enoughSecond))).1 ≠ .unfinished := by
      rw [endings]
      exact endsSecond.finished
    have endsWhole := ends_of_finished (fun le => whole.agrees_execute le) finished
    rw [endings] at endsWhole
    exact ⟨_, _, endsWhole, sessions, records⟩

end Append

end Session

/-- A script whose flushes succeed does not notice them. -/
theorem Script.flushesUnseen :
    console.FlushesUnseen fun here there => here = there ∧ here.failsFlush = false where
  symm := by
    rintro here _ ⟨rfl, sound⟩
    exact ⟨rfl, sound⟩
  answer := by
    rintro here _ ⟨rfl, sound⟩
    refine ⟨rfl, rfl, ?_⟩
    simp only [console, answer]
    split <;> exact sound
  write := by
    rintro text here _ ⟨rfl, sound⟩
    refine ⟨rfl, rfl, ?_⟩
    simp only [console, write]
    split <;> exact sound
  flush := by
    rintro here _ ⟨rfl, sound⟩
    simp [console, flush, sound]

end Letterline
