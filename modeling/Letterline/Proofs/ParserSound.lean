/-
Module: Letterline.Proofs.ParserSound
Purpose: What the parser reads is derivable from the grammar.
Trusted boundary: none
Main exports:
  Value.passes_of_parse, Condition.passes_of_parse, Instruction.passes_of_parse,
  Instruction.soundRun_parseRun, Program.exists_phrase_of_parse
-/
import Letterline.Program.Parser
import Letterline.Proofs.Token

namespace Letterline

/-!
Where a parser succeeds, the cursor has passed the text of a phrase, and the result is
what the phrase denotes, at the place where the cursor stood.
-/

open Letterline.Parser

variable {cursor after : Cursor}

/-! ### Values -/

theorem Operand.passes_of_parse {operand : Operand}
    (yields : Operand.parse.Yields cursor operand after) :
    ∃ phrase : OperandPhrase, cursor.Passes phrase.text after.next ∧
      operand = phrase.operand := by
  simp only [Operand.parse, yields_bind, yields_cursor, and_assoc, exists_and_left,
    exists_eq_left'] at yields
  split at yields
  · cases yields_unexpected yields
  next going =>
  have here := Cursor.rest_of_going going
  split at yields
  · next upper =>
      simp only [yields_bind, yields_name, yields_pure, and_assoc, exists_and_left,
        exists_eq_left'] at yields
      rcases yields with ⟨rfl, rfl⟩
      obtain ⟨phrase, name, passes⟩ := Cursor.exists_name true going upper
      exact ⟨.variable phrase, passes, by rw [name]; rfl⟩
  split at yields
  · next letter =>
      simp only [yields_pure] at yields
      rcases yields with ⟨rfl, rfl⟩
      rw [letter] at here
      exact ⟨.input, .next here, rfl⟩
  split at yields
  · cases yields_throw yields
  · next kind marked =>
      rw [LiteralKind.ofMark?_eq_some] at marked
      rw [marked] at here
      simp only [yields_bind, yields_literalContents here kind.mark_ne_escapeLetter] at yields
      rcases yields with ⟨_, _, ⟨contents, rest, split, delimited, rfl, rfl⟩, yields⟩
      simp only [LiteralKind.read] at yields
      cases denotes : kind.read? (String.ofList contents) with
      | none =>
          rw [denotes] at yields
          cases yields_throw yields
      | some scalar =>
          rw [denotes] at yields
          obtain ⟨rfl, rfl⟩ := yields_pure.mp yields
          refine ⟨.literal ⟨kind, contents, scalar, delimited, denotes⟩, ?_, rfl⟩
          have whole : cursor.rest = (kind.mark :: (contents ++ [kind.mark])) ++ rest := by
            rw [here, split]
            simp
          have passes := Cursor.Passes.advance whole
          simp only [List.length_cons, List.length_append, List.length_nil,
            Nat.zero_add] at passes
          rwa [Cursor.advance_succ] at passes

namespace Value

theorem passes_of_parseRest {fuel : Nat} {cursor : Cursor} {parts : List Part}
    (enough : cursor.next.rest.length < fuel)
    (yields : (parseRest fuel).Yields cursor parts after) :
    ∃ links, cursor.next.Passes (ValuePhrase.linksText links) after ∧
      parts = ValuePhrase.linkParts links := by
  induction fuel generalizing cursor parts with
  | zero => cases enough
  | succ fuel inductionHypothesis =>
      simp only [parseRest, yields_bind, yields_step, yields_cursor, and_assoc,
        exists_and_left, exists_eq_left', exists_const] at yields
      split at yields
      · next finished =>
          obtain ⟨rfl, rfl⟩ := yields_pure.mp yields
          exact ⟨[], .refl _, rfl⟩
      next going =>
      have here := Cursor.rest_of_going going
      split at yields
      · obtain ⟨rfl, rfl⟩ := yields_pure.mp yields
        exact ⟨[], .refl _, rfl⟩
      · next operator marked =>
          obtain ⟨arithmetic, letter, rfl⟩ := Operator.ofMark?_eq_some.mp marked
          rw [letter] at here
          simp only [yields_bind, yields_step, yields_cursor, and_assoc, exists_and_left,
            exists_eq_left', exists_const] at yields
          split at yields
          · cases yields_unexpected yields
          simp only [yields_bind, yields_pure] at yields
          rcases yields with ⟨operand, middle, operandYields, rest, _, restYields, rfl, rfl⟩
          obtain ⟨phrase, passes, rfl⟩ := Operand.passes_of_parse operandYields
          have behind := (Cursor.Passes.next here).trans passes
          have shorter : middle.next.rest.length < fuel := by
            have split := congrArg List.length behind.rest
            simp only [List.length_append, List.length_cons] at split
            omega
          obtain ⟨links, restPasses, rfl⟩ := inductionHypothesis shorter restYields
          exact ⟨(arithmetic, phrase) :: links, behind.trans restPasses, rfl⟩

theorem passes_of_parse {value : Value} (yields : Value.parse.Yields cursor value after) :
    ∃ phrase : ValuePhrase, cursor.Passes phrase.text after ∧ value = phrase.value := by
  simp only [Value.parse, yields_bind, yields_cursor, yields_pure, and_assoc,
    exists_and_left, exists_eq_left'] at yields
  rcases yields with ⟨operand, middle, operandYields, parts, _, restYields, rfl, rfl⟩
  obtain ⟨first, firstPasses, rfl⟩ := Operand.passes_of_parse operandYields
  have enough : middle.next.rest.length < middle.after.length + 1 := by
    rw [Cursor.rest_next, Cursor.rest]
    split <;> simp
  obtain ⟨links, restPasses, rfl⟩ := passes_of_parseRest enough restYields
  exact ⟨⟨first, links⟩, firstPasses.trans restPasses, rfl⟩

end Value

/-! ### Conditions -/

namespace Comparator

/-- The letters that a spelling takes are passed. -/
theorem passes_of_parseSpelling {fuel : Nat} {cursor : Cursor} {spelled longer : String}
    (yields : (parseSpelling fuel spelled).Yields cursor longer after) :
    ∃ letters, cursor.Passes letters after ∧ longer.toList = spelled.toList ++ letters := by
  induction fuel generalizing cursor spelled with
  | zero =>
      obtain ⟨rfl, rfl⟩ := yields_pure.mp yields
      exact ⟨[], .refl _, by simp⟩
  | succ fuel inductionHypothesis =>
      simp only [parseSpelling, yields_bind, yields_cursor, and_assoc, exists_and_left,
        exists_eq_left'] at yields
      split at yields
      · obtain ⟨rfl, rfl⟩ := yields_pure.mp yields
        exact ⟨[], .refl _, by simp⟩
      next going =>
      rw [Bool.or_eq_true, not_or] at going
      have here := Cursor.rest_of_going going.1
      simp only [yields_bind, yields_step, exists_eq_left', exists_const] at yields
      split at yields
      · obtain ⟨rfl, rfl⟩ := yields_pure.mp yields
        exact ⟨[cursor.current], .next here, by simp⟩
      · obtain ⟨letters, passes, spelling⟩ := inductionHypothesis yields
        refine ⟨cursor.current :: letters, (Cursor.Passes.next here).trans passes, ?_⟩
        rw [spelling]
        simp

theorem passes_of_parse {comparator : Comparator}
    (yields : Comparator.parse.Yields cursor comparator after) :
    cursor.Passes comparator.spelling after := by
  simp only [Comparator.parse, yields_bind, yields_cursor, and_assoc, exists_and_left,
    exists_eq_left'] at yields
  rcases yields with ⟨spelling, middle, spellingYields, yields⟩
  obtain ⟨letters, passes, spelled⟩ := passes_of_parseSpelling spellingYields
  split at yields
  · cases yields_unexpected yields
  split at yields
  · next found some =>
      obtain ⟨rfl, rfl⟩ := yields_pure.mp yields
      have same : letters = found.spelling := by
        rw [← ofSpelling?_eq_some.mp some, spelled]
        rfl
      rwa [← same]
  · cases yields_throw yields

end Comparator

namespace Condition

theorem passes_of_parseComparison {condition : Condition}
    (yields : parseComparison.Yields cursor condition after) :
    ∃ phrase : ComparisonPhrase, cursor.Passes phrase.text after ∧
      condition = phrase.condition := by
  simp only [parseComparison, yields_bind, yields_pure] at yields
  obtain ⟨_, _, leftYields, comparator, _, comparatorYields, _, _, rightYields, rfl,
    rfl⟩ := yields
  obtain ⟨left, leftPasses, rfl⟩ := Value.passes_of_parse leftYields
  obtain ⟨right, rightPasses, rfl⟩ := Value.passes_of_parse rightYields
  have middlePasses := Comparator.passes_of_parse comparatorYields
  exact ⟨⟨left, comparator, right⟩, leftPasses.trans (middlePasses.trans rightPasses), rfl⟩

theorem passes_of_parseLinks {fuel : Nat} {cursor : Cursor}
    {members : List (Connective × Condition)}
    (yields : (parseLinks fuel).Yields cursor members after) :
    ∃ links, cursor.Passes (ConditionPhrase.linksText links) after ∧
      members = ConditionPhrase.linkMembers links := by
  induction fuel generalizing cursor members with
  | zero =>
      obtain ⟨rfl, rfl⟩ := yields_pure.mp yields
      exact ⟨[], .refl _, rfl⟩
  | succ fuel inductionHypothesis =>
      simp only [parseLinks, yields_bind, yields_cursor, and_assoc, exists_and_left,
        exists_eq_left'] at yields
      split at yields
      · obtain ⟨rfl, rfl⟩ := yields_pure.mp yields
        exact ⟨[], .refl _, rfl⟩
      next going =>
      have here := Cursor.rest_of_going going
      split at yields
      · obtain ⟨rfl, rfl⟩ := yields_pure.mp yields
        exact ⟨[], .refl _, rfl⟩
      · next connective marked =>
          rw [Connective.ofMark?_eq_some] at marked
          rw [marked] at here
          simp only [yields_bind, yields_step, yields_pure, exists_eq_left',
            exists_const] at yields
          rcases yields with ⟨_, _, comparisonYields, _, _, restYields, rfl, rfl⟩
          obtain ⟨comparison, passes, rfl⟩ := passes_of_parseComparison comparisonYields
          obtain ⟨links, restPasses, rfl⟩ := inductionHypothesis restYields
          exact ⟨(connective, comparison) :: links,
            ((Cursor.Passes.next here).trans passes).trans restPasses, rfl⟩

theorem ofMembers_eq (first : ComparisonPhrase)
    (links : List (Connective × ComparisonPhrase)) :
    ofMembers first.condition (ConditionPhrase.linkMembers links) =
      (ConditionPhrase.mk first links).condition := by
  cases links <;> rfl

theorem passes_of_parse {condition : Condition}
    (yields : Condition.parse.Yields cursor condition after) :
    ∃ phrase : ConditionPhrase, cursor.Passes phrase.text after ∧
      condition = phrase.condition := by
  simp only [Condition.parse, yields_bind, yields_cursor, yields_pure, and_assoc,
    exists_and_left, exists_eq_left'] at yields
  rcases yields with ⟨_, _, firstYields, _, _, restYields, rfl, rfl⟩
  obtain ⟨first, passes, rfl⟩ := passes_of_parseComparison firstYields
  obtain ⟨links, restPasses, rfl⟩ := passes_of_parseLinks restYields
  exact ⟨⟨first, links⟩, passes.trans restPasses, ofMembers_eq first links⟩

end Condition

/-! ### Instructions -/

theorem Modification.passes_of_parse {modification : Modification}
    (yields : Modification.parse.Yields cursor modification after) :
    ∃ phrase : ModificationPhrase, cursor.Passes phrase.text after ∧
      modification = phrase.modification := by
  simp only [Modification.parse, yields_bind, yields_cursor, and_assoc, exists_and_left,
    exists_eq_left'] at yields
  split at yields
  · cases yields_unexpected yields
  next going =>
  have here := Cursor.rest_of_going going
  split at yields
  · next letter =>
      rw [letter] at here
      simp only [yields_bind, yields_step, yields_pure, exists_eq_left',
        exists_const] at yields
      rcases yields with ⟨_, _, valueYields, rfl, rfl⟩
      obtain ⟨value, passes, rfl⟩ := Value.passes_of_parse valueYields
      exact ⟨.assign value, (Cursor.Passes.next here).trans passes, rfl⟩
  split at yields
  · cases yields_unexpected yields
  next operator marked =>
  obtain ⟨arithmetic, letter, rfl⟩ := Operator.ofMark?_eq_some.mp marked
  rw [letter] at here
  simp only [yields_bind, yields_step, yields_cursor, and_assoc, exists_and_left,
    exists_eq_left', exists_const] at yields
  split at yields
  · cases yields_unexpected yields
  next goingOn =>
  have there := Cursor.rest_of_going goingOn
  have passesFirst := Cursor.Passes.next here
  split at yields
  · next second =>
      rw [second] at there
      simp only [yields_bind, yields_step, yields_pure, exists_eq_left',
        exists_const] at yields
      rcases yields with ⟨_, _, valueYields, rfl, rfl⟩
      obtain ⟨value, passes, rfl⟩ := Value.passes_of_parse valueYields
      exact ⟨.compound arithmetic value,
        (passesFirst.trans (.next there)).trans passes, rfl⟩
  split at yields
  · next both =>
      rcases both with ⟨plus, second⟩
      rw [second] at there
      simp only [yields_bind, yields_step, yields_pure, exists_eq_left',
        exists_const] at yields
      rcases yields with ⟨rfl, rfl⟩
      cases arithmetic <;> cases plus
      exact ⟨.increment, passesFirst.trans (.next there), rfl⟩
  split at yields
  · next both =>
      rcases both with ⟨minus, second⟩
      rw [second] at there
      simp only [yields_bind, yields_step, yields_pure, exists_eq_left',
        exists_const] at yields
      rcases yields with ⟨rfl, rfl⟩
      cases arithmetic <;> cases minus
      exact ⟨.decrement, passesFirst.trans (.next there), rfl⟩
  · cases yields_unexpected yields

@[simp] theorem InstructionPhrase.kind_instruction (start : Nat) (phrase : InstructionPhrase) :
    (phrase.instruction start).kind = phrase.kind := by
  cases phrase with
  | branch condition thenBody elseBody =>
      cases elseBody <;> simp [InstructionPhrase.instruction, Instruction.kind, kind]
  | _ =>
      simp [InstructionPhrase.instruction, Instruction.kind, kind,
        DeclarationPhrase.instruction, ChangePhrase.instruction]

/-- A run of instructions reads phrases: it passes their texts, and the mark that closes
a body, and it stops where it has to. -/
def Stop.Reads (stop : Stop) (phrases : List InstructionPhrase) (cursor after : Cursor) :
    Prop :=
  match stop with
  | .sourceEnd => cursor.Passes (InstructionPhrase.textAll phrases) after ∧ after.rest = []
  | .bodyEnd _ => cursor.Passes (InstructionPhrase.textAll phrases ++ ['z']) after
  | .segmentEnd segment =>
      cursor.Passes (InstructionPhrase.textAll phrases) after ∧
        ∀ phrase ∈ phrases, segment.allows phrase.kind

namespace Instruction

open InstructionPhrase

/-- A reader of runs is sound on cursors with so many characters in front of them. -/
def SoundRun (bound : Nat) (run : Stop → Parser (List Instruction)) : Prop :=
  ∀ {stop : Stop} {cursor after : Cursor} {read : List Instruction},
    cursor.rest.length ≤ bound → (run stop).Yields cursor read after →
      ∃ phrases, stop.Reads phrases cursor after ∧ read = instructions cursor.offset phrases

theorem passes_of_parseEnd {start : Nat} {span : Span}
    (yields : (parseEnd start).Yields cursor span after) :
    cursor.Passes ['l'] after ∧ span = ⟨start, after.offset⟩ := by
  simp only [parseEnd, spanFrom, yields_bind, yields_expect, yields_cursor, yields_pure,
    and_assoc, exists_and_left, exists_eq_left', exists_const] at yields
  rcases yields with ⟨⟨tail, here⟩, rfl, rfl⟩
  exact ⟨.next here, rfl⟩

theorem passes_of_parseBody {bound : Nat} {run : Stop → Parser (List Instruction)}
    {body : List Instruction} (sound : SoundRun bound run)
    (enough : cursor.rest.length ≤ bound + 1)
    (yields : (parseBody run).Yields cursor body after) :
    ∃ phrases, cursor.Passes ('t' :: (textAll phrases ++ ['z'])) after ∧
      body = instructions (cursor.offset + 1) phrases := by
  simp only [parseBody, yields_bind, yields_expect, yields_cursor, and_assoc,
    exists_and_left, exists_eq_left', exists_const] at yields
  rcases yields with ⟨⟨tail, here⟩, runYields⟩
  have opened := Cursor.Passes.next here
  have shorter : cursor.next.rest.length ≤ bound := by
    have length := opened.rest_length
    simp only [List.length_cons, List.length_nil] at length
    omega
  obtain ⟨phrases, passes, rfl⟩ := sound shorter runYields
  refine ⟨phrases, opened.trans passes, ?_⟩
  rw [opened.offset]
  rfl

theorem passes_of_parseDeclaration {instruction : Instruction} {before : Cursor}
    (opened : before.Passes ['v'] cursor)
    (yields : (parseDeclaration before.offset).Yields cursor instruction after) :
    ∃ phrase : DeclarationPhrase, before.Passes phrase.text after ∧
      instruction = phrase.instruction before.offset := by
  simp only [parseDeclaration, yields_bind, yields_cursor, and_assoc, exists_and_left,
    exists_eq_left'] at yields
  split at yields
  · cases yields_unexpected yields
  next fits =>
  simp only [Bool.or_eq_true, Bool.not_eq_true', not_or, Bool.not_eq_false] at fits
  simp only [yields_bind, yields_name, yields_expect, yields_pure, and_assoc,
    exists_and_left, exists_eq_left', exists_const] at yields
  rcases yields with ⟨⟨tail, assigned⟩, value, middle, valueYields, span, _, endYields, rfl, rfl⟩
  obtain ⟨namePhrase, name, namePasses⟩ := Cursor.exists_name false fits.1 fits.2
  obtain ⟨value, valuePasses, rfl⟩ := Value.passes_of_parse valueYields
  obtain ⟨endPasses, rfl⟩ := passes_of_parseEnd endYields
  have passes := opened.trans (namePasses.trans
    ((Cursor.Passes.next assigned).trans (valuePasses.trans endPasses)))
  refine ⟨⟨namePhrase, value⟩, passes, ?_⟩
  rw [name, passes.offset]
  rfl

/-- What a segment takes in front of the condition of a `for` are phrases of its head. -/
theorem exists_heads {phrases : List InstructionPhrase}
    (allowed : ∀ phrase ∈ phrases, Segment.initialization.allows phrase.kind) :
    ∃ heads : List HeadPhrase, heads.map ofHead = phrases := by
  induction phrases with
  | nil => exact ⟨[], rfl⟩
  | cons phrase rest inductionHypothesis =>
      rw [List.forall_mem_cons] at allowed
      obtain ⟨heads, rfl⟩ := inductionHypothesis allowed.2
      cases phrase with
      | declare declaration => exact ⟨.declare declaration :: heads, rfl⟩
      | modify change => exact ⟨.modify change :: heads, rfl⟩
      | _ => simp [Segment.allows, InstructionPhrase.kind] at allowed

/-- What a segment takes behind the condition of a `for` are changes. -/
theorem exists_changes {phrases : List InstructionPhrase}
    (allowed : ∀ phrase ∈ phrases, Segment.update.allows phrase.kind) :
    ∃ changes : List ChangePhrase, changes.map InstructionPhrase.modify = phrases := by
  induction phrases with
  | nil => exact ⟨[], rfl⟩
  | cons phrase rest inductionHypothesis =>
      rw [List.forall_mem_cons] at allowed
      obtain ⟨changes, rfl⟩ := inductionHypothesis allowed.2
      cases phrase with
      | modify change => exact ⟨change :: changes, rfl⟩
      | _ => simp [Segment.allows, InstructionPhrase.kind] at allowed

variable {bound : Nat} {run : Stop → Parser (List Instruction)} {before : Cursor}

theorem passes_of_parseElse {elseBody : Option (List Instruction)}
    (sound : SoundRun bound run) (enough : cursor.rest.length ≤ bound)
    (yields : (parseElse run).Yields cursor elseBody after) :
    (elseBody = none ∧ after = cursor) ∨
      ∃ phrases, cursor.Passes ('e' :: 't' :: (textAll phrases ++ ['z'])) after ∧
        elseBody = some (instructions (cursor.offset + 2) phrases) := by
  simp only [parseElse, yields_bind, yields_cursor, and_assoc, exists_and_left,
    exists_eq_left'] at yields
  split at yields
  · next fits =>
      rw [Bool.and_eq_true, Bool.not_eq_true', beq_iff_eq] at fits
      have here := Cursor.rest_of_going (Bool.not_eq_true _ ▸ fits.1)
      rw [fits.2] at here
      simp only [yields_bind, yields_step, yields_pure, exists_eq_left', exists_const] at yields
      rcases yields with ⟨_, _, bodyYields, rfl, rfl⟩
      have opened := Cursor.Passes.next here
      have shorter := opened.rest_length
      obtain ⟨phrases, passes, rfl⟩ := passes_of_parseBody sound (by omega) bodyYields
      refine Or.inr ⟨phrases, opened.trans passes, ?_⟩
      rw [opened.offset]
      rfl
  · obtain ⟨rfl, rfl⟩ := yields_pure.mp yields
    exact Or.inl ⟨rfl, rfl⟩

/-- A branch behind its first letter. -/
theorem passes_of_branch {condition : Condition} {thenBody : List Instruction}
    {elseBody : Option (List Instruction)} {behindCondition behindThen : Cursor}
    (sound : SoundRun bound run) (enough : cursor.rest.length ≤ bound)
    (opened : before.Passes ['j'] cursor)
    (conditionYields : Condition.parse.Yields cursor condition behindCondition)
    (thenYields : (parseBody run).Yields behindCondition thenBody behindThen)
    (elseYields : (parseElse run).Yields behindThen elseBody after) :
    ∃ phrase : InstructionPhrase, before.Passes phrase.text after ∧
      .branch condition thenBody elseBody ⟨before.offset, after.offset⟩ =
        phrase.instruction before.offset := by
  obtain ⟨condition, conditionPasses, rfl⟩ := Condition.passes_of_parse conditionYields
  have conditionLength := conditionPasses.rest_length
  obtain ⟨thenPhrases, thenPasses, rfl⟩ :=
    passes_of_parseBody sound (by omega) thenYields
  have thenLength := thenPasses.rest_length
  have toThen := opened.trans conditionPasses
  have toElse := toThen.trans thenPasses
  have atThen : behindCondition.offset + 1 =
      before.offset + 1 + condition.text.length + 1 := by
    simp [toThen.offset]
    omega
  obtain ⟨rfl, rfl⟩ | ⟨elsePhrases, elsePasses, rfl⟩ :=
    passes_of_parseElse sound (by omega) elseYields
  · have whole : before.Passes (text (.branch condition thenPhrases none)) after := by
      simpa [text] using toElse
    exact ⟨_, whole, by rw [instruction, whole.over, atThen]⟩
  · have whole : before.Passes (text (.branch condition thenPhrases (some elsePhrases)))
        after := by
      simpa [text] using toElse.trans elsePasses
    have atElse : behindThen.offset + 2 =
        before.offset + 1 + condition.text.length + 1 + (textAll thenPhrases).length + 3 := by
      simp [toElse.offset]
      omega
    exact ⟨_, whole, by rw [instruction, whole.over, atThen, atElse]⟩

/-- A `while` behind its first letter. -/
theorem passes_of_while {condition : Condition} {body : List Instruction}
    {behindCondition : Cursor} (sound : SoundRun bound run)
    (enough : cursor.rest.length ≤ bound) (opened : before.Passes ['r'] cursor)
    (conditionYields : Condition.parse.Yields cursor condition behindCondition)
    (bodyYields : (parseBody run).Yields behindCondition body after) :
    ∃ phrase : InstructionPhrase, before.Passes phrase.text after ∧
      .whileLoop condition body ⟨before.offset, after.offset⟩ =
        phrase.instruction before.offset := by
  obtain ⟨condition, conditionPasses, rfl⟩ := Condition.passes_of_parse conditionYields
  have conditionLength := conditionPasses.rest_length
  obtain ⟨phrases, bodyPasses, rfl⟩ := passes_of_parseBody sound (by omega) bodyYields
  have toBody := opened.trans conditionPasses
  have passes := toBody.trans bodyPasses
  have atBody : behindCondition.offset + 1 =
      before.offset + 1 + condition.text.length + 1 := by
    simp [toBody.offset]
    omega
  have whole : before.Passes (text (.whileLoop condition phrases)) after := by
    simpa [text] using passes
  exact ⟨_, whole, by rw [instruction, whole.over, atBody]⟩

/-- A `for` behind its first letter. -/
theorem passes_of_for {init update body : List Instruction} {condition : Condition}
    {behindInit behindCondition behindUpdate : Cursor} {initTail conditionTail : List Char}
    (sound : SoundRun bound run) (enough : cursor.rest.length ≤ bound)
    (opened : before.Passes ['f'] cursor)
    (initYields : (run (.segmentEnd .initialization)).Yields cursor init behindInit)
    (initEnds : behindInit.rest = 'k' :: initTail)
    (conditionYields : Condition.parse.Yields behindInit.next condition behindCondition)
    (conditionEnds : behindCondition.rest = 'k' :: conditionTail)
    (updateYields : (run (.segmentEnd .update)).Yields behindCondition.next update
      behindUpdate)
    (bodyYields : (parseBody run).Yields behindUpdate body after) :
    ∃ phrase : InstructionPhrase, before.Passes phrase.text after ∧
      .forLoop init condition update body ⟨before.offset, after.offset⟩ =
        phrase.instruction before.offset := by
  obtain ⟨initPhrases, ⟨initPasses, initAllowed⟩, rfl⟩ := sound enough initYields
  obtain ⟨heads, rfl⟩ := exists_heads initAllowed
  rw [textAll_heads] at initPasses
  have toCondition := opened.trans (initPasses.trans (.next initEnds))
  have initLength := (initPasses.trans (.next initEnds)).rest_length
  obtain ⟨condition, conditionPasses, rfl⟩ := Condition.passes_of_parse conditionYields
  have toUpdate := toCondition.trans (conditionPasses.trans (.next conditionEnds))
  have conditionLength := (conditionPasses.trans (.next conditionEnds)).rest_length
  obtain ⟨updatePhrases, ⟨updatePasses, updateAllowed⟩, rfl⟩ :=
    sound (by omega) updateYields
  obtain ⟨changes, rfl⟩ := exists_changes updateAllowed
  rw [textAll_changes] at updatePasses
  have toBody := toUpdate.trans updatePasses
  have updateLength := updatePasses.rest_length
  obtain ⟨phrases, bodyPasses, rfl⟩ := passes_of_parseBody sound (by omega) bodyYields
  have passes := toBody.trans bodyPasses
  have atUpdate : behindCondition.next.offset =
      before.offset + 1 + (heads.flatMap HeadPhrase.text).length + 1
        + condition.text.length + 1 := by
    simp only [toUpdate.offset, List.length_append, List.length_cons, List.length_nil]
    omega
  have atBody : behindUpdate.offset + 1 =
      before.offset + 1 + (heads.flatMap HeadPhrase.text).length + 1
        + condition.text.length + 1 + (changes.flatMap ChangePhrase.text).length + 1 := by
    simp only [toBody.offset, List.length_append, List.length_cons, List.length_nil]
    omega
  have whole : before.Passes (text (.forLoop heads condition changes phrases)) after := by
    simpa [text] using passes
  refine ⟨_, whole, ?_⟩
  rw [instruction, whole.over, instructions_heads, instructions_changes, atUpdate, atBody,
    opened.offset]
  rfl

/-- An instruction is read as a phrase if the runs inside it are. -/
theorem passes_of_parse {instruction : Instruction} (sound : SoundRun bound run)
    (enough : cursor.rest.length ≤ bound + 1) (going : ¬cursor.exhausted = true)
    (yields : (Instruction.parse run).Yields cursor instruction after) :
    ∃ phrase : InstructionPhrase, cursor.Passes phrase.text after ∧
      instruction = phrase.instruction cursor.offset := by
  have here := Cursor.rest_of_going going
  have shorter : cursor.next.rest.length ≤ bound := by
    rw [here, List.length_cons] at enough
    rw [Cursor.rest_next, here, List.tail_cons]
    omega
  simp only [Instruction.parse, yields_bind, yields_cursor, and_assoc, exists_and_left,
    exists_eq_left'] at yields
  rw [Cursor.index_eq_offset going] at yields
  split at yields
  · next upper =>
      simp only [yields_bind, yields_name, yields_pure, and_assoc, exists_and_left,
        exists_eq_left'] at yields
      rcases yields with ⟨_, _, modificationYields, _, _, endYields, rfl, rfl⟩
      obtain ⟨namePhrase, name, namePasses⟩ := Cursor.exists_name false going upper
      obtain ⟨modification, modificationPasses, rfl⟩ :=
        Modification.passes_of_parse modificationYields
      obtain ⟨endPasses, rfl⟩ := passes_of_parseEnd endYields
      have passes := namePasses.trans (modificationPasses.trans endPasses)
      refine ⟨.modify ⟨namePhrase, modification⟩, passes, ?_⟩
      rw [name, ← passes.over]
      rfl
  split at yields
  · next letter =>
      rw [letter] at here
      simp only [yields_bind, yields_step, yields_pure, exists_eq_left', exists_const] at yields
      rcases yields with ⟨_, _, endYields, rfl, rfl⟩
      obtain ⟨endPasses, rfl⟩ := passes_of_parseEnd endYields
      have passes := (Cursor.Passes.next here).trans endPasses
      refine ⟨.exit, passes, ?_⟩
      rw [← passes.over]
      rfl
  · next letter =>
      rw [letter] at here
      simp only [yields_bind, yields_step, yields_pure, exists_eq_left', exists_const] at yields
      rcases yields with ⟨_, _, valueYields, _, _, endYields, rfl, rfl⟩
      obtain ⟨value, valuePasses, rfl⟩ := Value.passes_of_parse valueYields
      obtain ⟨endPasses, rfl⟩ := passes_of_parseEnd endYields
      have passes := (Cursor.Passes.next here).trans (valuePasses.trans endPasses)
      refine ⟨.print value, passes, ?_⟩
      rw [← passes.over]
      rfl
  · next letter =>
      rw [letter] at here
      simp only [yields_bind, yields_step, exists_eq_left', exists_const] at yields
      obtain ⟨declaration, passes, rfl⟩ := passes_of_parseDeclaration (.next here) yields
      exact ⟨.declare declaration, passes, rfl⟩
  · next letter =>
      rw [letter] at here
      simp only [yields_bind, yields_step, spanFrom, yields_cursor, yields_pure, and_assoc,
        exists_and_left, exists_eq_left', exists_const] at yields
      rcases yields with ⟨_, _, conditionYields, _, _, thenYields, _, _, elseYields, rfl, rfl⟩
      exact passes_of_branch sound shorter (.next here) conditionYields thenYields elseYields
  · next letter =>
      rw [letter] at here
      simp only [yields_bind, yields_step, spanFrom, yields_cursor, yields_pure, and_assoc,
        exists_and_left, exists_eq_left', exists_const] at yields
      rcases yields with ⟨_, _, conditionYields, _, _, bodyYields, rfl, rfl⟩
      exact passes_of_while sound shorter (.next here) conditionYields bodyYields
  · next letter =>
      rw [letter] at here
      simp only [yields_bind, yields_step, yields_expect, spanFrom, yields_cursor,
        yields_pure, and_assoc, exists_and_left, exists_eq_left', exists_const] at yields
      obtain ⟨_, _, initYields, ⟨_, initEnds⟩, _, _, conditionYields, ⟨_, conditionEnds⟩, _, _,
        updateYields, _, _, bodyYields, rfl, rfl⟩ := yields
      exact passes_of_for sound shorter (.next here) initYields initEnds conditionYields
        conditionEnds updateYields bodyYields
  · cases yields_throw yields

theorem reads_of_parseSourceEnd {stop : Stop} {read : List Instruction}
    (finished : cursor.rest = []) (yields : (parseSourceEnd stop).Yields cursor read after) :
    stop.Reads [] cursor after ∧ read = [] := by
  cases stop with
  | sourceEnd =>
      obtain ⟨rfl, rfl⟩ := yields_pure.mp yields
      exact ⟨⟨.refl _, finished⟩, rfl⟩
  | bodyEnd start => cases yields_throw yields
  | segmentEnd segment =>
      obtain ⟨rfl, rfl⟩ := yields_pure.mp yields
      exact ⟨⟨.refl _, nofun⟩, rfl⟩

/-- Only a segment refuses instructions. -/
theorem yields_permit {stop : Stop} {instruction : Instruction} {result : Unit} :
    (permit stop instruction).Yields cursor result after ↔
      (∀ segment, stop = .segmentEnd segment → segment.allows instruction.kind) ∧
        cursor = after := by
  cases stop with
  | segmentEnd segment =>
      simp only [permit, Stop.segmentEnd.injEq, forall_eq']
      split
      · next allowed => simp [allowed]
      · next refused => simp [refused]
  | _ => simp [permit]

/-- A permitted phrase and a run behind it make a longer run. -/
theorem reads_cons {stop : Stop} {phrase : InstructionPhrase}
    {rest : List InstructionPhrase} {middle : Cursor}
    (passes : cursor.Passes phrase.text middle)
    (permitted : ∀ segment, stop = .segmentEnd segment → segment.allows phrase.kind)
    (reads : stop.Reads rest middle after) : stop.Reads (phrase :: rest) cursor after := by
  cases stop with
  | sourceEnd => exact ⟨passes.trans reads.1, reads.2⟩
  | bodyEnd start =>
      rw [Stop.Reads, textAll, List.append_assoc]
      exact passes.trans reads
  | segmentEnd segment =>
      exact ⟨passes.trans reads.1, List.forall_mem_cons.mpr ⟨permitted segment rfl, reads.2⟩⟩

/-- A run stops on its mark, and a body behind it. -/
theorem reads_of_parseStop {stop : Stop} {result : Unit} {tail : List Char} {c : Char}
    (here : cursor.rest = c :: tail) (stops : stopsAt c stop)
    (yields : (parseStop stop).Yields cursor result after) : stop.Reads [] cursor after := by
  cases stop with
  | sourceEnd => cases stops
  | bodyEnd start =>
      rw [stopsAt, beq_iff_eq] at stops
      rw [stops] at here
      rw [← yields_step.mp yields]
      exact .next here
  | segmentEnd segment =>
      rw [← (yields_pure.mp yields).2]
      exact ⟨.refl _, nofun⟩

/-- The parser of runs is sound if its fuel covers what remains of the source. -/
theorem soundRun_parseRun (fuel : Nat) : SoundRun fuel (parseRun fuel) := by
  induction fuel with
  | zero =>
      intro stop cursor after read enough yields
      have finished : cursor.rest = [] := List.eq_nil_of_length_eq_zero (Nat.le_zero.mp enough)
      obtain ⟨reads, rfl⟩ := reads_of_parseSourceEnd finished yields
      exact ⟨[], reads, rfl⟩
  | succ fuel inductionHypothesis =>
      intro stop cursor after read enough yields
      simp only [parseRun, yields_bind, yields_cursor, and_assoc, exists_and_left,
        exists_eq_left'] at yields
      split at yields
      · next exhausted =>
          obtain ⟨reads, rfl⟩ :=
            reads_of_parseSourceEnd (Cursor.exhausted_iff.mp exhausted) yields
          exact ⟨[], reads, rfl⟩
      next going =>
      have here := Cursor.rest_of_going going
      split at yields
      · next stops =>
          simp only [yields_bind, yields_pure] at yields
          rcases yields with ⟨_, _, stopYields, rfl, rfl⟩
          exact ⟨[], reads_of_parseStop here stops stopYields, rfl⟩
      · simp only [yields_bind, yields_permit, yields_pure, and_assoc, exists_and_left,
          exists_eq_left', exists_const] at yields
        rcases yields with ⟨_, middle, headYields, permitted, _, _, restYields, rfl, rfl⟩
        obtain ⟨phrase, passes, rfl⟩ :=
          passes_of_parse inductionHypothesis enough going headYields
        have shorter : middle.rest.length ≤ fuel := by
          have length := passes.rest_length
          have positive := List.length_pos_iff.mpr phrase.text_ne_nil
          omega
        obtain ⟨phrases, reads, rfl⟩ := inductionHypothesis shorter restYields
        simp only [InstructionPhrase.kind_instruction] at permitted
        refine ⟨phrase :: phrases, reads_cons passes permitted reads, ?_⟩
        rw [instructions, passes.offset]

end Instruction

/-- A program that is read has a derivation, and is what the derivation denotes. -/
theorem Program.exists_phrase_of_parse {source : String} {program : Program}
    (parsed : Program.parse source = .ok program) :
    source.toList ≠ [] ∧ ' ' ∉ source.toList ∧
      ∃ phrase : ProgramPhrase, phrase.text = source.toList ∧ program = phrase.program := by
  rw [Program.parse] at parsed
  split at parsed
  · next instructions there ran =>
      cases parsed
      obtain ⟨cursor, opened, yields⟩ := runFrom_eq_ok.mp ran
      obtain ⟨text, filled, spaceless, atStart, length⟩ := Cursor.ofSource_eq_ok opened
      simp only [Program.parseInstructions, yields_bind, yields_cursor, and_assoc,
        exists_and_left, exists_eq_left'] at yields
      rw [Cursor.remaining_eq] at yields
      obtain ⟨phrases, ⟨passes, finished⟩, rfl⟩ :=
        Instruction.soundRun_parseRun _ (Nat.le_refl _) yields
      have whole := passes.rest
      rw [finished, List.append_nil, text] at whole
      refine ⟨filled, spaceless, ⟨phrases⟩, whole.symm, ?_⟩
      rw [passes.length, length, atStart, whole]
      simp [ProgramPhrase.program, ProgramPhrase.text, Span.over]
  · cases parsed

end Letterline
