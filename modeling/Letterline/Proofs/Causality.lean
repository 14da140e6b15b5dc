/-
Module: Letterline.Proofs.Causality
Purpose: A run does not depend on answers that it has not asked for.
Trusted boundary: none
Main exports:
  Sink, Sink.answering, requestCount, AgreeUpTo, Dialogue.run_answering,
  Dialogue.run_of_agreeUpTo, Dialogue.exchanges_of_agreeUpTo, Script.run_asking,
  Session.causal_in_answers
-/
import Letterline.Proofs.Limit
import Letterline.Proofs.ParserComplete

namespace Letterline

/-!
The answers to a program are often laid down before it runs.  It may know them only one by
one, each when it asks for it: two lists of answers that begin alike lead to the same run, as
long as no request goes beyond their common beginning.  What the program has written by then
is the same whatever else the lists hold, so nothing in a run looks ahead.
-/

/-! ### Answers in a list -/

/-- Where a program writes. -/
structure Sink (τ : Type) where
  /-- Takes a text that is not empty. -/
  write : String → τ → Except String Unit × τ
  /-- Takes a request to flush. -/
  flush : τ → Except String Unit × τ

/-- The console that answers from a list, and with the empty text when the list is used up.
What is written goes to the sink. -/
def Sink.answering {τ : Type} (sink : Sink τ) : Console (List String × τ) where
  answer := fun (answers, world) => (.ok (answers.head?.getD ""), answers.tail, world)
  write text := fun (answers, world) =>
    let (answer, world) := sink.write text world
    (answer, answers, world)
  flush := fun (answers, world) =>
    let (answer, world) := sink.flush world
    (answer, answers, world)

/-- A sink that takes everything. -/
def Sink.collecting : Sink String where
  write text output := (.ok (), output ++ text)
  flush output := (.ok (), output)

/-- The state of the sink after some exchanges. -/
def Sink.after {τ : Type} (sink : Sink τ) : List Exchange → τ → τ
  | [], world => world
  | .asked _ :: rest, world => sink.after rest world
  | .told text _ :: rest, world => sink.after rest (sink.write text world).2
  | .flushed _ :: rest, world => sink.after rest (sink.flush world).2

/-- Says whether an exchange is a request for input. -/
def Exchange.isRequest : Exchange → Bool
  | .asked _ => true
  | _ => false

/-- The number of requests for input. -/
def requestCount (record : List Exchange) : Nat :=
  record.countP Exchange.isRequest

section Requests

variable {record : List Exchange}

@[simp] theorem requestCount_asked {answer : Except String String} :
    requestCount (.asked answer :: record) = requestCount record + 1 :=
  List.countP_cons_of_pos rfl

@[simp] theorem requestCount_told {text : String} {answer : Except String Unit} :
    requestCount (.told text answer :: record) = requestCount record :=
  List.countP_cons_of_neg nofun

@[simp] theorem requestCount_flushed {answer : Except String Unit} :
    requestCount (.flushed answer :: record) = requestCount record :=
  List.countP_cons_of_neg nofun

theorem requestCount_append {further : List Exchange} :
    requestCount (record ++ further) = requestCount record + requestCount further :=
  List.countP_append

/-- Exchanges with more requests than some number come to the request behind that many. -/
theorem exists_before_request {count : Nat} (more : count < requestCount record) :
    ∃ before answer, requestCount before = count ∧ before ++ [.asked answer] <+: record := by
  induction record generalizing count with
  | nil => cases more
  | cons exchange rest inductionHypothesis =>
      cases exchange with
      | asked answer =>
          rw [requestCount_asked] at more
          cases count with
          | zero => exact ⟨[], answer, rfl, List.cons_prefix_cons.mpr ⟨rfl, List.nil_prefix⟩⟩
          | succ count =>
              obtain ⟨before, last, counted, begins⟩ :=
                inductionHypothesis (Nat.lt_of_succ_lt_succ more)
              exact ⟨.asked answer :: before, last, by rw [requestCount_asked, counted],
                List.cons_prefix_cons.mpr ⟨rfl, begins⟩⟩
      | told text answer =>
          rw [requestCount_told] at more
          obtain ⟨before, last, counted, begins⟩ := inductionHypothesis more
          exact ⟨.told text answer :: before, last, by rw [requestCount_told, counted],
            List.cons_prefix_cons.mpr ⟨rfl, begins⟩⟩
      | flushed answer =>
          rw [requestCount_flushed] at more
          obtain ⟨before, last, counted, begins⟩ := inductionHypothesis more
          exact ⟨.flushed answer :: before, last, by rw [requestCount_flushed, counted],
            List.cons_prefix_cons.mpr ⟨rfl, begins⟩⟩

end Requests

/-- The first requests are answered alike from both lists.  A missing answer is an empty one. -/
def AgreeUpTo (count : Nat) (first second : List String) : Prop :=
  ∀ index < count, first[index]?.getD "" = second[index]?.getD ""

namespace AgreeUpTo

variable {count : Nat} {first second : List String}

instance : Decidable (AgreeUpTo count first second) :=
  inferInstanceAs (Decidable (∀ index < count, first[index]?.getD "" = second[index]?.getD ""))

theorem head (agree : AgreeUpTo (count + 1) first second) :
    first.head?.getD "" = second.head?.getD "" := by
  simpa only [List.head?_eq_getElem?] using agree 0 (Nat.succ_pos count)

theorem tail (agree : AgreeUpTo (count + 1) first second) :
    AgreeUpTo count first.tail second.tail := by
  intro index lt
  simpa only [List.getElem?_tail] using agree (index + 1) (Nat.succ_lt_succ lt)

end AgreeUpTo

/-! ### Dialogues that are answered alike for some time -/

namespace Dialogue

variable {α τ : Type} {sink : Sink τ} {count : Nat} {first second : List String}

/-- A dialogue uses up one answer with every request, and the sink knows of nothing but the
exchanges. -/
theorem run_answering (dialogue : Dialogue α) (answers : List String) (world : τ) :
    (dialogue.run sink.answering (answers, world)).2 =
      (answers.drop (requestCount (dialogue.exchanges sink.answering (answers, world))),
        sink.after (dialogue.exchanges sink.answering (answers, world)) world) := by
  induction dialogue generalizing answers world with
  | done result => rfl
  | ask next inductionHypothesis =>
      refine (inductionHypothesis _ _ _).trans ?_
      rw [exchanges, requestCount_asked, ← List.drop_tail]
      rfl
  | tell text next inductionHypothesis =>
      refine (inductionHypothesis _ _ _).trans ?_
      rw [exchanges, requestCount_told]
      rfl
  | flush next inductionHypothesis =>
      refine (inductionHypothesis _ _ _).trans ?_
      rw [exchanges, requestCount_flushed]
      rfl

/-- A dialogue that makes no request but those which are answered alike goes the same way. -/
theorem run_of_agreeUpTo {dialogue : Dialogue α} {world : τ}
    (agree : AgreeUpTo count first second)
    (few : requestCount (dialogue.exchanges sink.answering (first, world)) ≤ count) :
    dialogue.exchanges sink.answering (second, world) =
        dialogue.exchanges sink.answering (first, world) ∧
      (dialogue.run sink.answering (second, world)).1 =
        (dialogue.run sink.answering (first, world)).1 := by
  induction dialogue generalizing count first second world with
  | done result => exact ⟨rfl, rfl⟩
  | ask next inductionHypothesis =>
      rw [exchanges, requestCount_asked] at few
      obtain ⟨count, rfl⟩ : ∃ fewer, count = fewer + 1 := ⟨count - 1, by omega⟩
      obtain ⟨records, results⟩ := inductionHypothesis _ agree.tail (Nat.le_of_succ_le_succ few)
      simp only [exchanges, run, Sink.answering, ← agree.head]
      exact ⟨congrArg _ records, results⟩
  | tell text next inductionHypothesis =>
      rw [exchanges, requestCount_told] at few
      obtain ⟨records, results⟩ := inductionHypothesis _ agree few
      simp only [exchanges, run, Sink.answering]
      exact ⟨congrArg _ records, results⟩
  | flush next inductionHypothesis =>
      rw [exchanges, requestCount_flushed] at few
      obtain ⟨records, results⟩ := inductionHypothesis _ agree few
      simp only [exchanges, run, Sink.answering]
      exact ⟨congrArg _ records, results⟩

/-- A dialogue comes to the first request that may be answered differently after the same
exchanges. -/
theorem exchanges_of_agreeUpTo {dialogue : Dialogue α} {world : τ} {before : List Exchange}
    {answer : Except String String} (agree : AgreeUpTo count first second)
    (asked : requestCount before = count)
    (begins : before ++ [.asked answer] <+: dialogue.exchanges sink.answering (first, world)) :
    ∃ other,
      before ++ [.asked other] <+: dialogue.exchanges sink.answering (second, world) := by
  induction dialogue generalizing count first second world before with
  | done result => simp [exchanges] at begins
  | ask next inductionHypothesis =>
      cases before with
      | nil => exact ⟨_, List.cons_prefix_cons.mpr ⟨rfl, List.nil_prefix⟩⟩
      | cons exchange before =>
          obtain ⟨rfl, goesOn⟩ := List.cons_prefix_cons.mp begins
          rw [requestCount_asked] at asked
          subst asked
          obtain ⟨other, reached⟩ := inductionHypothesis _ agree.tail rfl goesOn
          refine ⟨other, List.cons_prefix_cons.mpr ⟨?_, ?_⟩⟩
          · exact congrArg (Exchange.asked ∘ Except.ok) agree.head
          · rwa [agree.head] at reached
  | tell text next inductionHypothesis =>
      cases before with
      | nil => cases (List.cons_prefix_cons.mp begins).1
      | cons exchange before =>
          obtain ⟨rfl, goesOn⟩ := List.cons_prefix_cons.mp begins
          rw [requestCount_told] at asked
          obtain ⟨other, reached⟩ := inductionHypothesis _ agree asked goesOn
          exact ⟨other, List.cons_prefix_cons.mpr ⟨rfl, reached⟩⟩
  | flush next inductionHypothesis =>
      cases before with
      | nil => cases (List.cons_prefix_cons.mp begins).1
      | cons exchange before =>
          obtain ⟨rfl, goesOn⟩ := List.cons_prefix_cons.mp begins
          rw [requestCount_flushed] at asked
          obtain ⟨other, reached⟩ := inductionHypothesis _ agree asked goesOn
          exact ⟨other, List.cons_prefix_cons.mpr ⟨rfl, reached⟩⟩

end Dialogue

/-! ### Scripts -/

namespace Script

/-- Where a script writes. -/
def sink : Sink Script :=
  ⟨write, flush⟩

/-- The script with other answers to come and another number of requests so far. -/
def asking (script : Script) (answers : List String) (asked : Nat) : Script :=
  { script with answers := answers, requests := asked }

variable {script : Script} {answers : List String} {asked : Nat}

theorem answer_asking (sound : script.failingRequest = none) :
    (script.asking answers asked).answer =
      (.ok (answers.head?.getD ""), script.asking answers.tail (asked + 1)) := by
  simp [answer, asking, sound]

theorem write_asking (text : String) :
    (script.asking answers asked).write text =
      ((script.write text).1, (script.write text).2.asking answers asked) := by
  have same : (script.asking answers asked).isFull = script.isFull := rfl
  rw [write, write, same]
  split <;> rfl

theorem failingRequest_write (text : String) :
    (script.write text).2.failingRequest = script.failingRequest := by
  unfold write
  split <;> rfl

/-- A script in which no request fails answers from a list, and counts the requests. -/
theorem run_asking {α : Type} (dialogue : Dialogue α) (sound : script.failingRequest = none) :
    dialogue.exchanges console (script.asking answers asked) =
        dialogue.exchanges sink.answering (answers, script) ∧
      dialogue.run console (script.asking answers asked) =
        ((dialogue.run sink.answering (answers, script)).1,
          (dialogue.run sink.answering (answers, script)).2.2.asking
            (dialogue.run sink.answering (answers, script)).2.1
            (asked + requestCount (dialogue.exchanges sink.answering (answers, script)))) := by
  induction dialogue generalizing script answers asked with
  | done result => exact ⟨rfl, rfl⟩
  | ask next inductionHypothesis =>
      obtain ⟨records, results⟩ := inductionHypothesis (.ok (answers.head?.getD "")) sound
      simp only [Dialogue.exchanges, Dialogue.run, console, Sink.answering, answer_asking sound,
        requestCount_asked] at records results ⊢
      exact ⟨congrArg _ records, results.trans (by rw [Nat.add_assoc, Nat.add_comm 1])⟩
  | tell text next inductionHypothesis =>
      obtain ⟨records, results⟩ := inductionHypothesis (script.write text).1
        ((failingRequest_write text).trans sound)
      simp only [Dialogue.exchanges, Dialogue.run, console, Sink.answering, write_asking, sink,
        requestCount_told] at records results ⊢
      exact ⟨congrArg _ records, results⟩
  | flush next inductionHypothesis =>
      obtain ⟨records, results⟩ := inductionHypothesis script.flush.1 sound
      simp only [Dialogue.exchanges, Dialogue.run, console, Sink.answering, sink,
        requestCount_flushed] at records results ⊢
      exact ⟨congrArg _ records, results⟩

end Script

/-! ### Runs that are answered alike for some time -/

namespace Session

variable {τ : Type} {sink : Sink τ} {session after : Session τ} {execution : Execution}
  {run : Nat → Execution} {count : Nat} {first second left : List String} {ending : Ending}
  {before : List Exchange}

/-- The session in which these answers are laid down. -/
def answering (session : Session τ) (answers : List String) : Session (List String × τ) :=
  ⟨session.store, answers, session.world⟩

/-- What a session comes to, by the exchanges of the execution. -/
theorem hold_answering (sink : Sink τ) (session : Session τ) (answers : List String)
    (execution : Execution) :
    (session.answering answers).hold sink.answering execution =
      let record := (session.answering answers).exchanges sink.answering execution
      let result := ((execution session.store).run sink.answering (answers, session.world)).1
      (result.1,
        ⟨result.2, answers.drop (requestCount record), sink.after record session.world⟩) := by
  simp only [hold, exchanges, answering, Dialogue.run_answering]

/-- An execution that makes no request but those which are answered alike is held alike. -/
theorem hold_of_agreeUpTo (agree : AgreeUpTo count first second)
    (few : requestCount ((session.answering first).exchanges sink.answering execution) ≤ count)
    (held : (session.answering first).hold sink.answering execution =
      (ending, after.answering left)) :
    (session.answering second).exchanges sink.answering execution =
        (session.answering first).exchanges sink.answering execution ∧
      (session.answering second).hold sink.answering execution =
        (ending, after.answering (second.drop
          (requestCount ((session.answering first).exchanges sink.answering execution)))) := by
  obtain ⟨records, results⟩ := Dialogue.run_of_agreeUpTo agree few
  refine ⟨records, ?_⟩
  rw [hold_answering] at held ⊢
  simp only [answering, Prod.mk.injEq, Session.mk.injEq] at held
  obtain ⟨rfl, stores, -, worlds⟩ := held
  simp only [exchanges, answering] at records results worlds ⊢
  rw [records, results, stores, worlds]

/-- A run that ends before a request is answered differently ends alike. -/
theorem Ends.of_agreeUpTo {record : List Exchange} (agree : AgreeUpTo count first second)
    (few : requestCount record ≤ count)
    (ends : (session.answering first).Ends sink.answering run ending (after.answering left)
      record) :
    (session.answering second).Ends sink.answering run ending
      (after.answering (second.drop (requestCount record))) record := by
  obtain ⟨enough, settled⟩ := ends.settled
  refine ⟨ends.finished, enough, fun limit le => ?_⟩
  obtain ⟨held, rfl⟩ := settled limit le
  exact (hold_of_agreeUpTo agree few held).symm

/-- A run that makes a request which may be answered differently makes it after the same
exchanges. -/
theorem Passes.of_agreeUpTo {answer : Except String String}
    (agree : AgreeUpTo count first second) (asked : requestCount before = count)
    (stable : ∀ {limit more : Nat}, limit ≤ more → (run limit).Agrees (run more))
    (passes : (session.answering first).Passes sink.answering run (before ++ [.asked answer])) :
    ∃ other, (session.answering second).Passes sink.answering run
      (before ++ [.asked other]) := by
  obtain ⟨limit, begins⟩ := (passes_iff stable).mp passes
  obtain ⟨other, reached⟩ := Dialogue.exchanges_of_agreeUpTo agree asked begins
  exact ⟨other, (passes_iff stable).mpr ⟨limit, reached⟩⟩

/-- A program learns its answers one by one.  Let two lists of answers agree on the first of
them.  If a run with the first list ends without a request for more, so does the run with the
second one, in the same way, with the same store and state of the sink, and after the same
exchanges.  If it makes one more request, so does the run with the second list, and all that
was asked, written and flushed before is the same. -/
theorem causal_in_answers (sink : Sink τ) (program : Program) (session : Session τ)
    {count : Nat} {first second : List String} (agree : AgreeUpTo count first second) :
    (∀ {ending : Ending} {after : Session τ} {left : List String} {record : List Exchange},
      (session.answering first).Ends sink.answering (program.execute ·) ending
        (after.answering left) record → requestCount record ≤ count →
      (session.answering second).Ends sink.answering (program.execute ·) ending
        (after.answering (second.drop (requestCount record))) record) ∧
    ∀ {record : List Exchange},
      (session.answering first).Passes sink.answering (program.execute ·) record →
      count < requestCount record →
      ∃ before answer other, requestCount before = count ∧
        before ++ [.asked answer] <+: record ∧
        (session.answering second).Passes sink.answering (program.execute ·)
          (before ++ [.asked other]) := by
  refine ⟨fun ends few => ends.of_agreeUpTo agree few, fun passes more => ?_⟩
  obtain ⟨before, answer, asked, begins⟩ := exists_before_request more
  obtain ⟨other, reached⟩ := (passes.of_begun begins).of_agreeUpTo agree asked
    fun le => program.agrees_execute le
  exact ⟨before, answer, other, asked, begins, reached⟩

/-- A loop that asks in its condition and in its body.  A fourth answer makes no difference to
it, and a third one makes none before it is asked for. -/
theorem echo_causal_in_answers :
    ∃ program, Program.parse "rulti3ithulzxl" = .ok program ∧
      (∃ ending after left record,
        ((start "").answering ["1", "a", "5"]).Ends Sink.collecting.answering
          (program.execute ·) ending (answering after left) record ∧
        ((start "").answering ["1", "a", "5", "b"]).Ends Sink.collecting.answering
          (program.execute ·) ending (answering after ["b"]) record) ∧
      ∃ before answer other, requestCount before = 2 ∧
        ((start "").answering ["1", "a", "5"]).Passes Sink.collecting.answering
          (program.execute ·) (before ++ [.asked answer]) ∧
        ((start "").answering ["1", "a", "2"]).Passes Sink.collecting.answering
          (program.execute ·) (before ++ [.asked other]) := by
  obtain ⟨program, parsed, passes⟩ := Program.exists_parse_of_any "rulti3ithulzxl"
    (fun program =>
      (((start "").answering ["1", "a", "5"]).hold Sink.collecting.answering
        (program.execute 2)).1 ≠ .unfinished ∧
      requestCount (((start "").answering ["1", "a", "5"]).exchanges Sink.collecting.answering
        (program.execute 2)) = 3) (by decide +kernel)
  obtain ⟨finished, asked⟩ := of_decide_eq_true passes
  have ends : ((start "").answering ["1", "a", "5"]).Ends Sink.collecting.answering
      (program.execute ·) _ (answering ⟨_, _⟩ _) _ :=
    ends_of_finished (fun le => program.agrees_execute le) finished
  have alike := (causal_in_answers Sink.collecting program (start "")
    (by decide : AgreeUpTo 3 ["1", "a", "5"] ["1", "a", "5", "b"])).1 ends (Nat.le_of_eq asked)
  obtain ⟨before, answer, other, counted, begins, reached⟩ :=
    (causal_in_answers Sink.collecting program (start "")
      (by decide : AgreeUpTo 2 ["1", "a", "5"] ["1", "a", "2"])).2 ends.passes (by omega)
  rw [asked] at alike
  exact ⟨program, parsed, ⟨_, _, _, _, ends, alike⟩,
    before, answer, other, counted, ends.passes.of_begun begins, reached⟩

end Session

end Letterline
