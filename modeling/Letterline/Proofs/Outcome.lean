/-
Module: Letterline.Proofs.Outcome
Purpose: What can come of a source: it is not read, it is refused, or it runs.
Trusted boundary: none
Main exports:
  Rule.rule_of_mem_check, Program.errors_eq, Program.filled_of_parse,
  Program.ne_proceeds_of_final_exit, Session.NotRead, Session.Refused, Session.Runs,
  Session.one_outcome_of_source
-/
import Letterline.Proofs.DeadCode
import Letterline.Proofs.ForLoop
import Letterline.Proofs.ParserComplete
import Letterline.Proofs.Place

namespace Letterline

/-!
A source passes three gates.  It has to be read; what is read is never empty, so the rule on
empty programs is silent; and the one error that is left to find is a last instruction that
is no exit.  Behind the gates a run may go on for ever or stop at a fault, but it cannot fall
off the end of the program, for there stands the exit.
-/

/-! ### Findings and their rules -/

namespace Check

variable {finding : Finding} {scope : Scope} {span : Span}

theorem rule_of_mem_emptyProgram {program : Program} (found : finding ∈ emptyProgram program) :
    finding.cause.rule = .emptyProgram := by
  rw [emptyProgram] at found
  split at found
  · rw [List.mem_singleton.mp found, Cause.rule]
  · cases found

theorem rule_of_mem_missingExit {program : Program} (found : finding ∈ missingExit program) :
    finding.cause.rule = .missingExit := by
  rw [missingExit] at found
  split at found
  · cases found
  · split at found
    · cases found
    · rw [List.mem_singleton.mp found, Cause.rule]

mutual

theorem rule_of_mem_unreachableInside : ∀ {instruction : Instruction},
    finding ∈ unreachableInside instruction → finding.cause.rule = .unreachableCode
  | .exit _, found => by simp [unreachableInside] at found
  | .print .., found => by simp [unreachableInside] at found
  | .declare .., found => by simp [unreachableInside] at found
  | .modify .., found => by simp [unreachableInside] at found
  | .branch _ thenBody none _, found => by
      rw [unreachableInside] at found
      exact rule_of_mem_unreachableIn found
  | .branch _ thenBody (some elseBody) _, found => by
      rw [unreachableInside, List.mem_append] at found
      rcases found with inThen | inElse
      · exact rule_of_mem_unreachableIn inThen
      · exact rule_of_mem_unreachableIn inElse
  | .whileLoop _ body _, found => by
      rw [unreachableInside] at found
      exact rule_of_mem_unreachableIn found
  | .forLoop _ _ _ body _, found => by
      rw [unreachableInside] at found
      exact rule_of_mem_unreachableIn found

theorem rule_of_mem_unreachableIn : ∀ {body : List Instruction},
    finding ∈ unreachableIn body → finding.cause.rule = .unreachableCode
  | [], found => by simp [unreachableIn] at found
  | instruction :: rest, found => by
      rw [unreachableIn_cons] at found
      split at found
      · rw [Option.mem_toList, Option.map_eq_some_iff] at found
        obtain ⟨next, _, rfl⟩ := found
        rw [Cause.rule]
      · rcases List.mem_append.mp found with inside | behind
        · exact rule_of_mem_unreachableInside inside
        · exact rule_of_mem_unreachableIn behind

end

theorem rule_of_mem_undeclaredIn {value : Value}
    (found : finding ∈ undeclaredIn scope span value) :
    finding.cause.rule = .undefinedVariable := by
  rw [undeclaredIn, List.mem_map] at found
  obtain ⟨name, _, rfl⟩ := found
  rw [Cause.rule]

theorem rule_of_mem_undeclaredInCondition {condition : Condition}
    (found : finding ∈ undeclaredInCondition scope span condition) :
    finding.cause.rule = .undefinedVariable := by
  rw [undeclaredInCondition, List.mem_flatMap] at found
  obtain ⟨value, _, found⟩ := found
  exact rule_of_mem_undeclaredIn found

theorem rule_of_mem_undeclaredInModification {name : String} {modification : Modification}
    (found : finding ∈ undeclaredInModification scope span name modification) :
    finding.cause.rule = .undefinedVariable := by
  unfold undeclaredInModification at found
  rw [List.mem_append] at found
  rcases found with ofTarget | ofValue
  · split at ofTarget
    · cases ofTarget
    · rw [List.mem_singleton.mp ofTarget, Cause.rule]
  · cases modification with
    | compound operator value => exact rule_of_mem_undeclaredIn ofValue
    | assign value => exact rule_of_mem_undeclaredIn ofValue
    | _ => cases ofValue

theorem rule_of_mem_foundAtStart {instruction : Instruction}
    (found : finding ∈ foundAtStart scope instruction) :
    finding.cause.rule = .undefinedVariable := by
  cases instruction with
  | print value span => exact rule_of_mem_undeclaredIn found
  | declare name value span => exact rule_of_mem_undeclaredIn found
  | modify name modification span => exact rule_of_mem_undeclaredInModification found
  | branch condition thenBody elseBody span => exact rule_of_mem_undeclaredInCondition found
  | _ => cases found

/-- What is found on a visit is found by the rule on undeclared names. -/
theorem rule_of_visit {place : Place} {body : List Instruction} {visit : Visit}
    (visited : visit? place body scope = some visit) (found : finding ∈ visit.found) :
    finding.cause.rule = .undefinedVariable := by
  fun_induction visit? place body scope with
  | case1 instruction rest scope =>
      cases visited
      exact rule_of_mem_foundAtStart found
  | case2 condition body span rest scope =>
      cases visited
      exact rule_of_mem_undeclaredInCondition found
  | case3 init condition update body span rest scope head =>
      cases visited
      exact rule_of_mem_undeclaredInCondition found
  | case11 => cases visited
  | _ => simp_all

theorem rule_of_mem_undefinedVariable {program : Program}
    (found : finding ∈ undefinedVariable program) : finding.cause.rule = .undefinedVariable := by
  obtain ⟨place, visit, visited, found⟩ := mem_declarationsIn_iff.mp found
  exact rule_of_visit visited found

end Check

/-- Every finding names the rule that has made it. -/
theorem Rule.rule_of_mem_check {rule : Rule} {program : Program} {finding : Finding}
    (found : finding ∈ rule.check program) : finding.cause.rule = rule := by
  cases rule with
  | emptyProgram => exact Check.rule_of_mem_emptyProgram found
  | missingExit => exact Check.rule_of_mem_missingExit found
  | unreachableCode => exact Check.rule_of_mem_unreachableIn found
  | undefinedVariable => exact Check.rule_of_mem_undefinedVariable found

/-- A finding is an error if one of the rules on how a program ends has made it. -/
theorem Finding.isError_iff (finding : Finding) :
    finding.isError ↔
      finding.cause.rule = .emptyProgram ∨ finding.cause.rule = .missingExit := by
  rcases finding with ⟨span, cause⟩
  cases cause <;> simp [isError, Cause.severity, Cause.rule]

/-- Only the rules on how a program ends keep it from running. -/
theorem Program.errors_eq (program : Program) :
    program.errors = Check.emptyProgram program ++ Check.missingExit program := by
  have kept : ∀ {rule : Rule}, (rule = .emptyProgram ∨ rule = .missingExit) →
      (rule.check program).filter Finding.isError = rule.check program := by
    intro rule ending
    refine List.filter_eq_self.mpr fun finding found => ?_
    rwa [Finding.isError_iff, Rule.rule_of_mem_check found]
  have dropped : ∀ {rule : Rule}, (rule = .unreachableCode ∨ rule = .undefinedVariable) →
      (rule.check program).filter Finding.isError = [] := by
    intro rule other
    refine List.filter_eq_nil_iff.mpr fun finding found => ?_
    rw [Finding.isError_iff, Rule.rule_of_mem_check found]
    rcases other with rfl | rfl <;> simp
  rw [errors, findings, Rule.all, List.filter_flatMap]
  simp only [List.flatMap_cons, List.flatMap_nil, List.append_nil, kept (Or.inl rfl),
    kept (Or.inr rfl), dropped (Or.inl rfl), dropped (Or.inr rfl)]
  rfl

/-! ### Programs that were read -/

/-- What is read has an instruction. -/
theorem Program.filled_of_parse {source : String} {program : Program}
    (parsed : Program.parse source = .ok program) : program.instructions ≠ [] := by
  obtain ⟨filled, _, phrase, text, rfl⟩ := Program.exists_phrase_of_parse parsed
  rw [← text] at filled
  rcases phrase with ⟨_ | ⟨first, rest⟩⟩
  · exact absurd rfl filled
  · simp [ProgramPhrase.program, InstructionPhrase.instructions]

/-- The rule on empty programs is silent on what is read. -/
theorem Program.emptyProgram_of_parse {source : String} {program : Program}
    (parsed : Program.parse source = .ok program) : Check.emptyProgram program = [] := by
  rw [Check.emptyProgram, if_neg]
  rw [List.isEmpty_iff]
  exact Program.filled_of_parse parsed

/-- So no finding in it is one of that rule. -/
theorem Program.rule_ne_emptyProgram_of_parse {source : String} {program : Program}
    {finding : Finding} (parsed : Program.parse source = .ok program)
    (found : finding ∈ program.findings) : finding.cause.rule ≠ .emptyProgram := by
  obtain ⟨rule, _, found⟩ := List.mem_flatMap.mp found
  rw [Rule.rule_of_mem_check found]
  rintro rfl
  rw [Rule.check, Program.emptyProgram_of_parse parsed] at found
  cases found

/-- The one error that can be found in what is read is a last instruction that is no exit. -/
theorem Program.errors_of_parse {source : String} {program : Program} {last : Instruction}
    (parsed : Program.parse source = .ok program)
    (final : program.instructions.getLast? = some last) :
    program.errors = if last.isExit then [] else [⟨last.span, .noFinalExit last.kind⟩] := by
  rw [Program.errors_eq, Program.emptyProgram_of_parse parsed, List.nil_append,
    Check.missingExit, final]

/-! ### Runs of programs that end with an exit -/

/-- Instructions of which the last one is an exit do not lead behind it. -/
theorem Instruction.ne_proceeds_of_final_exit {limit : Nat} {body : List Instruction}
    {last : Instruction} {store after : Store} {ending : Ending}
    (final : body.getLast? = some last) (exits : last.isExit)
    (ends : (executeAll limit body store).MayEnd (ending, after)) : ending ≠ .proceeds := by
  obtain ⟨front, rfl⟩ := List.getLast?_eq_some_iff.mp final
  obtain ⟨span, rfl⟩ := isExit_iff.mp exits
  rw [executeAll_append, executeAll_singleton] at ends
  rcases Execution.mayEnd_andThen.mp ends with ⟨middle, _, atExit⟩ | ⟨stopped, _⟩
  · rw [execute] at atExit
    cases atExit
    nofun
  · exact stopped

/-- Nor does a program. -/
theorem Program.ne_proceeds_of_final_exit {limit : Nat} {program : Program}
    {last : Instruction} {store after : Store} {ending : Ending}
    (final : program.instructions.getLast? = some last) (exits : last.isExit)
    (ends : (program.execute limit store).MayEnd (ending, after)) : ending ≠ .proceeds := by
  obtain ⟨_, bodyEnds, rfl | ⟨reason, rfl⟩⟩ := Program.mayEnd_execute ends
  · exact Instruction.ne_proceeds_of_final_exit final exits bodyEnds
  · nofun

/-! ### Sources in a session -/

/-- A run comes to the end of its program if its instructions proceed. -/
theorem Outcome.ofEnding_eq_ended {ending : Ending} :
    Outcome.ofEnding ending = .ended ↔ ending = .proceeds := by
  cases ending <;> simp [Outcome.ofEnding]

namespace Session

variable {σ : Type} {console : Console σ} {session : Session σ} {source : String}

/-- The source cannot be read.  Nothing comes of it but the error. -/
def NotRead (console : Console σ) (source : String) (session : Session σ) : Prop :=
  ∃ error, Program.parse source = .error error ∧
    ∀ limit, session.runSource console limit source = (.failed (.unreadable error), session)

/-- The source is read, but its last instruction is no exit.  Nothing comes of it but one
finding that points at this instruction. -/
def Refused (console : Console σ) (source : String) (session : Session σ) : Prop :=
  ∃ program last, Program.parse source = .ok program ∧
    program.instructions.getLast? = some last ∧ ¬last.isExit ∧
    ∀ limit, session.runSource console limit source =
      (.failed (.invalid [⟨last.span, .noFinalExit last.kind⟩]), session)

/-- The source is read, its last instruction is an exit, and its program runs: for ever, or
up to a fault, or up to an exit. -/
def Runs (console : Console σ) (source : String) (session : Session σ) : Prop :=
  ∃ program last, Program.parse source = .ok program ∧
    program.instructions.getLast? = some last ∧ last.isExit ∧
    (∀ limit, session.runSource console limit source =
      session.runProgram console limit program) ∧
    (session.Diverges console program.execute ∨
      ∃ ending after record, session.Ends console program.execute ending after record ∧
        (ending = .exits ∨ ∃ error, ending = .fails error))

/-- A program that ends with an exit runs for ever, or up to a fault, or up to an exit. -/
theorem diverges_or_ends_of_final_exit (console : Console σ) (session : Session σ)
    {program : Program} {last : Instruction}
    (final : program.instructions.getLast? = some last) (exits : last.isExit) :
    session.Diverges console program.execute ∨
      ∃ ending after record, session.Ends console program.execute ending after record ∧
        (ending = .exits ∨ ∃ error, ending = .fails error) := by
  by_cases diverges : session.Diverges console program.execute
  · exact Or.inl diverges
  · obtain ⟨ending, after, record, ends⟩ :=
      (exists_ends_iff fun le => program.agrees_execute le).mpr diverges
    refine Or.inr ⟨ending, after, record, ends, ?_⟩
    obtain ⟨_, held⟩ := ends.exists_mayEnd
    have stopped := Program.ne_proceeds_of_final_exit final exits held
    cases ending with
    | proceeds => exact absurd rfl stopped
    | exits => exact Or.inl rfl
    | fails error => exact Or.inr ⟨error, rfl⟩
    | unfinished => exact absurd rfl ends.finished

theorem notRead_of_error {error : ParseError} (parsed : Program.parse source = .error error) :
    session.NotRead console source := by
  refine ⟨error, parsed, fun limit => ?_⟩
  simp only [runSource, Program.prepare, parsed, Outcome.ofRejection]

theorem refused_of_parse {program : Program} {last : Instruction}
    (parsed : Program.parse source = .ok program)
    (final : program.instructions.getLast? = some last) (stays : ¬last.isExit) :
    session.Refused console source := by
  refine ⟨program, last, parsed, final, stays, fun limit => ?_⟩
  have errors := Program.errors_of_parse parsed final
  rw [if_neg stays] at errors
  simp only [runSource, Program.prepare, parsed, errors]
  rfl

theorem runs_of_parse {program : Program} {last : Instruction}
    (parsed : Program.parse source = .ok program)
    (final : program.instructions.getLast? = some last) (exits : last.isExit) :
    session.Runs console source := by
  refine ⟨program, last, parsed, final, exits, fun limit => ?_,
    diverges_or_ends_of_final_exit console session final exits⟩
  have errors := Program.errors_of_parse parsed final
  rw [if_pos exits] at errors
  simp only [runSource, Program.prepare, parsed, errors]
  rfl

/-- There is no fourth thing that can come of a source. -/
theorem notRead_or_refused_or_runs (console : Console σ) (session : Session σ)
    (source : String) :
    session.NotRead console source ∨ session.Refused console source ∨
      session.Runs console source := by
  cases parsed : Program.parse source with
  | error error => exact Or.inl (notRead_of_error parsed)
  | ok program =>
      obtain ⟨last, final⟩ : ∃ last, program.instructions.getLast? = some last :=
        ⟨_, List.getLast?_eq_some_getLast (Program.filled_of_parse parsed)⟩
      by_cases exits : last.isExit
      · exact Or.inr (Or.inr (runs_of_parse parsed final exits))
      · exact Or.inr (Or.inl (refused_of_parse parsed final exits))

/-- A source that is not read has no program. -/
theorem NotRead.parse_ne_ok (notRead : session.NotRead console source) (program : Program) :
    Program.parse source ≠ .ok program := by
  obtain ⟨error, failed, _⟩ := notRead
  rw [failed]
  nofun

theorem NotRead.not_refused (notRead : session.NotRead console source) :
    ¬session.Refused console source := by
  rintro ⟨program, _, parsed, _⟩
  exact notRead.parse_ne_ok program parsed

theorem NotRead.not_runs (notRead : session.NotRead console source) :
    ¬session.Runs console source := by
  rintro ⟨program, _, parsed, _⟩
  exact notRead.parse_ne_ok program parsed

/-- A source whose last instruction is an exit is not refused. -/
theorem Runs.not_refused (runs : session.Runs console source) :
    ¬session.Refused console source := by
  obtain ⟨program, last, parsed, final, exits, _⟩ := runs
  rintro ⟨other, otherLast, otherParsed, otherFinal, stays, _⟩
  rw [parsed] at otherParsed
  cases otherParsed
  rw [final] at otherFinal
  cases otherFinal
  exact stays exits

/-- What comes of a source is never that its program fell off its end. -/
theorem runSource_ne_ended (console : Console σ) (session : Session σ) (source : String)
    (limit : Nat) : (session.runSource console limit source).1 ≠ .ended := by
  rcases notRead_or_refused_or_runs console session source with notRead | refused | runs
  · obtain ⟨_, _, result⟩ := notRead
    rw [result limit]
    nofun
  · obtain ⟨_, _, _, _, _, result⟩ := refused
    rw [result limit]
    nofun
  · obtain ⟨program, last, _, final, exits, same, _⟩ := runs
    have held := mayEnd_hold console (program.execute limit) session
    rw [same, ne_eq, runProgram, Outcome.ofEnding_eq_ended]
    exact Program.ne_proceeds_of_final_exit final exits held

/-- Of a source comes exactly one of three things, in every session and on every console: it
is not read, or it is refused for its last instruction, and then the session is the one from
before, or it runs, for ever or up to a fault or an exit.  It never falls off its end, and
the rule on empty programs never finds anything in what was read. -/
theorem one_outcome_of_source (console : Console σ) (session : Session σ) (source : String) :
    ((session.NotRead console source ∧ ¬session.Refused console source ∧
          ¬session.Runs console source) ∨
      (¬session.NotRead console source ∧ session.Refused console source ∧
          ¬session.Runs console source) ∨
      (¬session.NotRead console source ∧ ¬session.Refused console source ∧
          session.Runs console source)) ∧
    (∀ limit, (session.runSource console limit source).1 ≠ .ended) ∧
    ∀ program, Program.parse source = .ok program →
      ∀ finding ∈ program.findings, finding.cause.rule ≠ .emptyProgram := by
  refine ⟨?_, runSource_ne_ended console session source,
    fun program parsed finding found => Program.rule_ne_emptyProgram_of_parse parsed found⟩
  rcases notRead_or_refused_or_runs console session source with notRead | refused | runs
  · exact Or.inl ⟨notRead, notRead.not_refused, notRead.not_runs⟩
  · refine Or.inr (Or.inl ⟨fun notRead => ?_, refused, fun runs => ?_⟩)
    · exact notRead.not_refused refused
    · exact runs.not_refused refused
  · refine Or.inr (Or.inr ⟨fun notRead => ?_, runs.not_refused, runs⟩)
    exact notRead.not_runs runs

end Session

end Letterline
