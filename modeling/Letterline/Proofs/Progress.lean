/-
Module: Letterline.Proofs.Progress
Purpose: Parsers move forward only, and where they succeed they have read something.
Trusted boundary: none
Main exports:
  Parser.endOf, Parser.OnlyAdvances, Parser.OnlyAdvances.bind, Parser.ConsumesFrom,
  Parser.MovesOn, Parser.Progresses, Instruction.consumesFrom_parse,
  Instruction.onlyAdvances_parseRun
-/
import Letterline.Proofs.Advance
import Letterline.Proofs.ParserSound

namespace Letterline

/-!
A parser moves the cursor by steps, literals and names, and each of these advances it.  So wherever
a parser stops, with a result or with an error, it has advanced the cursor by some number of
characters.  Sequences of such parsers are such parsers, so this is shown of one parser after the
other.  An instruction also takes a character at least, its letter or its name, whatever the parser
of the runs inside it does.
-/

/-- Behind a text that has a character, less is left. -/
theorem Cursor.Passes.remaining_lt {cursor after : Cursor} {text : List Char}
    (passes : cursor.Passes text after) (filled : text ≠ []) :
    after.remaining < cursor.remaining := by
  rw [remaining_eq, remaining_eq, passes.rest_length]
  exact Nat.lt_add_of_pos_left (List.length_pos_iff.mpr filled)

/-! ### Parsers that only advance -/

namespace Parser

variable {α β : Type}

/-- Where a parser leaves the cursor, whether it succeeds or not. -/
def endOf (parser : Parser α) (cursor : Cursor) : Cursor :=
  match parser cursor with
  | .ok _ there => there
  | .error _ stopped => stopped

/-- A parser leaves the cursor some characters further on. -/
def OnlyAdvances (parser : Parser α) : Prop :=
  ∀ cursor, ∃ count, parser.endOf cursor = cursor.advance count

theorem Yields.endOf_eq {parser : Parser α} {cursor after : Cursor} {result : α}
    (yields : parser.Yields cursor result after) : parser.endOf cursor = after := by
  rw [endOf, show parser cursor = .ok result after from yields]

theorem endOf_look (next : Cursor → Parser α) (here : Cursor) :
    (Parser.cursor >>= next).endOf here = (next here).endOf here :=
  rfl

namespace OnlyAdvances

theorem pure (value : α) : OnlyAdvances (pure value : Parser α) :=
  fun _ => ⟨0, rfl⟩

theorem throw (error : ParseError) : OnlyAdvances (throw error : Parser α) :=
  fun _ => ⟨0, rfl⟩

theorem cursor : OnlyAdvances Parser.cursor :=
  fun _ => ⟨0, rfl⟩

theorem step : OnlyAdvances Parser.step :=
  fun _ => ⟨1, rfl⟩

theorem name (keepPosition : Bool) : OnlyAdvances (Parser.name keepPosition) :=
  fun cursor => cursor.exists_advance_readIdentifier keepPosition

/-- In a sequence, the second parser goes on from where the first one stopped. -/
theorem bind_from {first : Parser α} {second : α → Parser β} {cursor : Cursor}
    (advancesFirst : ∃ count, first.endOf cursor = cursor.advance count)
    (advancesSecond : ∀ result, OnlyAdvances (second result)) :
    ∃ count, (first >>= second).endOf cursor = cursor.advance count := by
  obtain ⟨count, reached⟩ := advancesFirst
  rw [endOf] at reached
  simp only [endOf, Bind.bind, EStateM.bind]
  split at reached
  · next result middle ran =>
      obtain ⟨further, reachedSecond⟩ := advancesSecond result middle
      refine ⟨count + further, ?_⟩
      rw [Cursor.advance_add, ← reached, ← reachedSecond, endOf, ran]
  · next error stopped failed =>
      rw [failed]
      exact ⟨count, reached⟩

theorem bind {first : Parser α} {second : α → Parser β} (advancesFirst : OnlyAdvances first)
    (advancesSecond : ∀ result, OnlyAdvances (second result)) :
    OnlyAdvances (first >>= second) :=
  fun cursor => bind_from (advancesFirst cursor) advancesSecond

/-- Whatever is decided on, both ways advance. -/
theorem ite {condition : Prop} [Decidable condition] {first second : Parser α}
    (advancesFirst : OnlyAdvances first) (advancesSecond : OnlyAdvances second) :
    OnlyAdvances (if condition then first else second) := by
  split
  · exact advancesFirst
  · exact advancesSecond

/-- Looking at the cursor does not move it. -/
theorem look {next : Cursor → Parser α} (advances : ∀ here, OnlyAdvances (next here)) :
    OnlyAdvances (Parser.cursor >>= next) :=
  bind cursor advances

theorem unexpected (expected : Expectation) : OnlyAdvances (unexpected expected : Parser α) :=
  look fun _ => throw _

theorem expect (mark : Char) (expected : Expectation) : OnlyAdvances (expect mark expected) :=
  look fun _ => ite (unexpected expected) step

theorem literalContents : OnlyAdvances literalContents := by
  intro cursor
  have advances := cursor.exists_advance_readDelimited
  rw [Parser.literalContents, endOf_look]
  generalize cursor.readDelimited = read at advances ⊢
  obtain ⟨contents, there⟩ := read
  refine bind_from advances fun _ => ?_
  cases contents with
  | some contents => exact .pure _
  | none => exact .throw _

/-- After a parser that succeeds, not more is left than before it. -/
theorem remaining_le {parser : Parser α} {cursor after : Cursor} {result : α}
    (advances : OnlyAdvances parser) (yields : parser.Yields cursor result after) :
    after.remaining ≤ cursor.remaining := by
  obtain ⟨count, reached⟩ := advances cursor
  rw [← yields.endOf_eq, reached, Cursor.remaining_eq, Cursor.remaining_eq, Cursor.rest_advance,
    List.length_drop]
  exact Nat.sub_le _ count

end OnlyAdvances

/-! ### Parsers that take something -/

/-- A parser advances from here, and takes a character at least if it succeeds in front of one. -/
structure ConsumesFrom (here : Cursor) (parser : Parser α) : Prop where
  advances : ∃ count, parser.endOf here = here.advance count
  consumes {result : α} {after : Cursor} (going : here.exhausted = false)
    (yields : parser.Yields here result after) : after.remaining < here.remaining

namespace ConsumesFrom

variable {here : Cursor}

theorem throw (error : ParseError) : ConsumesFrom here (throw error : Parser α) where
  advances := ⟨0, rfl⟩
  consumes _ yields := (yields_throw yields).elim

theorem step : ConsumesFrom here Parser.step where
  advances := ⟨1, rfl⟩
  consumes going yields := by
    rw [← yields_step.mp yields]
    exact (Cursor.Passes.next (Cursor.rest_of_going (by simp [going]))).remaining_lt (by simp)

theorem name (nameChar : Cursor.isNameChar here.current) :
    ConsumesFrom here (Parser.name false) where
  advances := here.exists_advance_readIdentifier false
  consumes going yields := by
    have passes := (Cursor.readIdentifier_passes false
      (Cursor.rest_of_going (by simp [going])) nameChar).2
    rw [← (yields_name.mp yields).2]
    exact passes.remaining_lt (by simp)

/-- A sequence takes what its first parser takes. -/
theorem bind {first : Parser α} {second : α → Parser β} (consumesFirst : ConsumesFrom here first)
    (advancesSecond : ∀ result, OnlyAdvances (second result)) :
    ConsumesFrom here (first >>= second) where
  advances := OnlyAdvances.bind_from consumesFirst.advances advancesSecond
  consumes going yields := by
    obtain ⟨result, middle, ran, yields⟩ := yields_bind.mp yields
    exact Nat.lt_of_le_of_lt ((advancesSecond result).remaining_le yields)
      (consumesFirst.consumes going ran)

theorem look {next : Cursor → Parser α} (consumes : ConsumesFrom here (next here)) :
    ConsumesFrom here (Parser.cursor >>= next) where
  advances := consumes.advances
  consumes := consumes.consumes

end ConsumesFrom

/-! ### Offsets -/

/-- Wherever a parser stops, it is in the same source and not behind where it was. -/
structure MovesOn (parser : Parser α) : Prop where
  source (here : Cursor) : (parser.endOf here).characters = here.characters
  forward (here : Cursor) : here.offset ≤ (parser.endOf here).offset
  inside (here : Cursor) : (parser.endOf here).offset ≤ here.length

/-- A parser moves on, and has read something where it succeeds in front of a character. -/
structure Progresses (parser : Parser α) : Prop extends MovesOn parser where
  reads {here after : Cursor} {result : α} (going : here.exhausted = false)
    (yields : parser.Yields here result after) : here.offset < after.offset

theorem OnlyAdvances.movesOn {parser : Parser α} (advances : OnlyAdvances parser) :
    parser.MovesOn where
  source here := by
    obtain ⟨count, reached⟩ := advances here
    rw [reached, Cursor.characters_advance]
  forward here := by
    obtain ⟨count, reached⟩ := advances here
    have before := here.offset_add_rest
    rw [reached, Cursor.offset_advance]
    omega
  inside here := by
    obtain ⟨count, reached⟩ := advances here
    rw [reached, Cursor.offset_advance]
    exact Nat.min_le_right _ _

theorem ConsumesFrom.progresses {parser : Parser α}
    (consumes : ∀ here, ConsumesFrom here parser) : parser.Progresses where
  toMovesOn := OnlyAdvances.movesOn fun here => (consumes here).advances
  reads {here after _} going yields := by
    obtain ⟨count, reached⟩ := (consumes here).advances
    have less := (consumes here).consumes going yields
    have before := here.offset_add_rest
    have behind := after.offset_add_rest
    rw [yields.endOf_eq] at reached
    rw [Cursor.remaining_eq, Cursor.remaining_eq] at less
    rw [reached, Cursor.length_advance, ← reached] at behind
    omega

end Parser

open Letterline.Parser

/-! ### Values and conditions -/

theorem Operand.onlyAdvances_parse : OnlyAdvances Operand.parse := by
  refine .look fun here => .ite (.unexpected _) (.ite ?_ (.ite (.pure _) ?_))
  · exact .bind (.name true) fun _ => .pure _
  · cases LiteralKind.ofMark? here.current with
    | none => exact .throw _
    | some kind =>
        refine .bind .literalContents fun contents => ?_
        cases kind.read contents here.index with
        | ok scalar => exact .pure _
        | error error => exact .throw _

namespace Value

theorem onlyAdvances_parseRest (fuel : Nat) : OnlyAdvances (parseRest fuel) := by
  induction fuel with
  | zero => exact .pure []
  | succ fuel inductionHypothesis =>
      refine .bind .step fun _ => .look fun here => .ite (.pure []) ?_
      cases Operator.ofMark? here.current with
      | none => exact .pure []
      | some operator =>
          refine .bind .step fun _ => .look fun there => .ite (.unexpected _) ?_
          refine .bind Operand.onlyAdvances_parse fun operand => ?_
          exact .bind inductionHypothesis fun rest => .pure _

theorem onlyAdvances_parse : OnlyAdvances Value.parse :=
  .bind Operand.onlyAdvances_parse fun _ => .look fun _ =>
    .bind (onlyAdvances_parseRest _) fun _ => .pure _

theorem consumesFrom_parse (here : Cursor) : ConsumesFrom here Value.parse where
  advances := onlyAdvances_parse here
  consumes _ yields := by
    obtain ⟨phrase, passes, rfl⟩ := Value.passes_of_parse yields
    exact passes.remaining_lt phrase.text_ne_nil

end Value

theorem Comparator.onlyAdvances_parseSpelling (fuel : Nat) (spelled : String) :
    OnlyAdvances (parseSpelling fuel spelled) := by
  induction fuel generalizing spelled with
  | zero => exact .pure spelled
  | succ fuel inductionHypothesis =>
      refine .look fun here => .ite (.pure spelled) (.bind .step fun _ => ?_)
      exact .ite (.pure _) (inductionHypothesis _)

theorem Comparator.onlyAdvances_parse : OnlyAdvances Comparator.parse := by
  refine .look fun here => .bind (onlyAdvances_parseSpelling _ _) fun spelling => ?_
  refine .ite (.unexpected _) ?_
  cases ofSpelling? spelling with
  | some comparator => exact .pure _
  | none => exact .throw _

namespace Condition

theorem onlyAdvances_parseComparison : OnlyAdvances parseComparison :=
  .bind Value.onlyAdvances_parse fun _ => .bind Comparator.onlyAdvances_parse fun _ =>
    .bind Value.onlyAdvances_parse fun _ => .pure _

theorem onlyAdvances_parseLinks (fuel : Nat) : OnlyAdvances (parseLinks fuel) := by
  induction fuel with
  | zero => exact .pure []
  | succ fuel inductionHypothesis =>
      refine .look fun here => .ite (.pure []) ?_
      cases Connective.ofMark? here.current with
      | none => exact .pure []
      | some connective =>
          refine .bind .step fun _ => .bind onlyAdvances_parseComparison fun condition => ?_
          exact .bind inductionHypothesis fun rest => .pure _

theorem onlyAdvances_parse : OnlyAdvances Condition.parse :=
  .bind onlyAdvances_parseComparison fun _ => .look fun _ =>
    .bind (onlyAdvances_parseLinks _) fun _ => .pure _

theorem consumesFrom_parse (here : Cursor) : ConsumesFrom here Condition.parse where
  advances := onlyAdvances_parse here
  consumes _ yields := by
    obtain ⟨phrase, passes, rfl⟩ := Condition.passes_of_parse yields
    exact passes.remaining_lt phrase.text_ne_nil

end Condition

/-! ### Instructions -/

theorem Modification.onlyAdvances_parse : OnlyAdvances Modification.parse := by
  refine .look fun here => .ite (.unexpected _) (.ite ?_ ?_)
  · exact .bind .step fun _ => .bind Value.onlyAdvances_parse fun _ => .pure _
  · cases Operator.ofMark? here.current with
    | none => exact .unexpected _
    | some operator =>
        refine .bind .step fun _ => .look fun there => .ite (.unexpected _) (.ite ?_ ?_)
        · exact .bind .step fun _ => .bind Value.onlyAdvances_parse fun _ => .pure _
        · refine .ite (.bind .step fun _ => .pure _) ?_
          exact .ite (.bind .step fun _ => .pure _) (.unexpected _)

namespace Instruction

variable {run : Stop → Parser (List Instruction)}

theorem onlyAdvances_spanFrom (start : Nat) : OnlyAdvances (spanFrom start) :=
  .look fun _ => .pure _

theorem onlyAdvances_parseEnd (start : Nat) : OnlyAdvances (parseEnd start) :=
  .bind (.expect _ _) fun _ => onlyAdvances_spanFrom start

theorem onlyAdvances_parseBody (runs : ∀ stop, OnlyAdvances (run stop)) :
    OnlyAdvances (parseBody run) :=
  .bind (.expect _ _) fun _ => .look fun _ => runs _

theorem onlyAdvances_parseElse (runs : ∀ stop, OnlyAdvances (run stop)) :
    OnlyAdvances (parseElse run) :=
  .look fun _ => .ite (.bind .step fun _ => .bind (onlyAdvances_parseBody runs) fun _ => .pure _)
    (.pure none)

theorem onlyAdvances_parseDeclaration (start : Nat) : OnlyAdvances (parseDeclaration start) := by
  refine .look fun _ => .ite (.unexpected _) (.bind (.name false) fun _ => ?_)
  refine .bind (.expect _ _) fun _ => .bind Value.onlyAdvances_parse fun _ => ?_
  exact .bind (onlyAdvances_parseEnd start) fun _ => .pure _

/-- An instruction takes its letter or its name, and only advances if the runs inside it do. -/
theorem consumesFrom_parse (runs : ∀ stop, OnlyAdvances (run stop)) (here : Cursor) :
    ConsumesFrom here (Instruction.parse run) := by
  have condition := Condition.onlyAdvances_parse
  have body := onlyAdvances_parseBody runs
  refine .look ?_
  split
  · next upper =>
      refine .bind (.name (Cursor.isNameChar_of_isUpper upper)) fun _ => ?_
      refine .bind Modification.onlyAdvances_parse fun _ => ?_
      exact .bind (onlyAdvances_parseEnd _) fun _ => .pure _
  split
  · exact .bind .step fun _ => .bind (onlyAdvances_parseEnd _) fun _ => .pure _
  · refine .bind .step fun _ => .bind Value.onlyAdvances_parse fun _ => ?_
    exact .bind (onlyAdvances_parseEnd _) fun _ => .pure _
  · exact .bind .step fun _ => onlyAdvances_parseDeclaration _
  · refine .bind .step fun _ => .bind condition fun _ => .bind body fun _ => ?_
    refine .bind (onlyAdvances_parseElse runs) fun _ => ?_
    exact .bind (onlyAdvances_spanFrom _) fun _ => .pure _
  · refine .bind .step fun _ => .bind condition fun _ => .bind body fun _ => ?_
    exact .bind (onlyAdvances_spanFrom _) fun _ => .pure _
  · refine .bind .step fun _ => .bind (runs _) fun _ => .bind (.expect _ _) fun _ => ?_
    refine .bind condition fun _ => .bind (.expect _ _) fun _ => .bind (runs _) fun _ => ?_
    exact .bind body fun _ => .bind (onlyAdvances_spanFrom _) fun _ => .pure _
  · exact .throw _

theorem onlyAdvances_parse (runs : ∀ stop, OnlyAdvances (run stop)) :
    OnlyAdvances (Instruction.parse run) :=
  fun here => (consumesFrom_parse runs here).advances

theorem onlyAdvances_parseSourceEnd (stop : Stop) : OnlyAdvances (parseSourceEnd stop) := by
  cases stop with
  | bodyEnd start => exact .throw _
  | sourceEnd => exact .pure []
  | segmentEnd segment => exact .pure []

theorem onlyAdvances_parseStop (stop : Stop) : OnlyAdvances (parseStop stop) := by
  cases stop with
  | bodyEnd start => exact .step
  | sourceEnd => exact .pure ()
  | segmentEnd segment => exact .pure ()

theorem onlyAdvances_permit (stop : Stop) (instruction : Instruction) :
    OnlyAdvances (permit stop instruction) := by
  cases stop with
  | segmentEnd segment => exact .ite (.pure ()) (.throw _)
  | sourceEnd => exact .pure ()
  | bodyEnd start => exact .pure ()

theorem onlyAdvances_parseRun (fuel : Nat) (stop : Stop) : OnlyAdvances (parseRun fuel stop) := by
  induction fuel generalizing stop with
  | zero => exact onlyAdvances_parseSourceEnd stop
  | succ fuel inductionHypothesis =>
      refine .look fun here => .ite (onlyAdvances_parseSourceEnd stop) (.ite ?_ ?_)
      · exact .bind (onlyAdvances_parseStop stop) fun _ => .pure []
      · refine .bind (onlyAdvances_parse inductionHypothesis) fun instruction => ?_
        refine .bind (onlyAdvances_permit stop instruction) fun _ => ?_
        exact .bind (inductionHypothesis stop) fun rest => .pure _

end Instruction

end Letterline
