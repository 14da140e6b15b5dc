/-
Module: Letterline.Proofs.ParserComplete
Purpose: What is derivable from the grammar is read, and so the parser accepts exactly
  the texts of derivations.
Trusted boundary: none
Main exports:
  Parser.Leaves, Instruction.leaves_parse, Instruction.completeRun_parseRun,
  Program.parse_iff_unique_derivation
-/
import Letterline.Proofs.ParserSound
import Letterline.Proofs.Readability

namespace Letterline

/-!
Only success and what is left of the source are followed here.  What a successful parser
returns is known from soundness, and that it is the tree of the given derivation from
unique readability.
-/

/-- A step goes over the character that stands here. -/
theorem Cursor.rest_next_of_cons {cursor : Cursor} {c : Char} {tail : List Char}
    (here : cursor.rest = c :: tail) : cursor.next.rest = tail := by
  rw [rest_next, here, List.tail_cons]

namespace Parser

variable {α β : Type} {parser : Parser α} {cursor : Cursor} {c : Char} {more tail : List Char}

/-- From a cursor a parser succeeds and leaves a text to be read. -/
def Leaves (parser : Parser α) (cursor : Cursor) (tail : List Char) : Prop :=
  ∃ result after, parser.Yields cursor result after ∧ after.rest = tail

theorem leaves_pure (value : α) (here : cursor.rest = tail) :
    (pure value : Parser α).Leaves cursor tail :=
  ⟨value, cursor, rfl, here⟩

theorem Leaves.bind {second : α → Parser β} (first : parser.Leaves cursor more)
    (others : ∀ result middle, parser.Yields cursor result middle → middle.rest = more →
      (second result).Leaves middle tail) : (parser >>= second).Leaves cursor tail := by
  rcases first with ⟨result, middle, yields, here⟩
  obtain ⟨last, after, lastYields, there⟩ := others result middle yields here
  exact ⟨last, after, yields_bind.mpr ⟨result, middle, yields, lastYields⟩, there⟩

/-- What is yielded first is what the rest goes on from. -/
theorem Yields.leaves_bind {result : α} {middle : Cursor} {second : α → Parser β}
    (first : parser.Yields cursor result middle)
    (others : (second result).Leaves middle tail) : (parser >>= second).Leaves cursor tail := by
  rcases others with ⟨last, after, lastYields, there⟩
  exact ⟨last, after, yields_bind.mpr ⟨result, middle, first, lastYields⟩, there⟩

theorem leaves_cursor {second : Cursor → Parser β} (others : (second cursor).Leaves cursor tail) :
    (Parser.cursor >>= second).Leaves cursor tail :=
  (yields_cursor.mpr ⟨rfl, rfl⟩).leaves_bind others

theorem leaves_step {second : Unit → Parser β} (others : (second ()).Leaves cursor.next tail) :
    (step >>= second).Leaves cursor tail :=
  (yields_step.mpr rfl).leaves_bind others

theorem leaves_expect {expected : Expectation} (here : cursor.rest = c :: tail) :
    (expect c expected).Leaves cursor tail :=
  ⟨(), cursor.next, yields_expect.mpr ⟨⟨tail, here⟩, rfl⟩, Cursor.rest_next_of_cons here⟩

end Parser

open Letterline.Parser

variable {cursor : Cursor} {tail : List Char}

/-! ### Values -/

/-- A name is read to its end. -/
theorem NamePhrase.rest_readIdentifier (phrase : NamePhrase) (keepPosition : Bool)
    (here : cursor.rest = phrase.text ++ tail) (ends : Ends Cursor.isNameChar tail) :
    (if keepPosition then (cursor.readIdentifier keepPosition).2.next
      else (cursor.readIdentifier keepPosition).2).rest = tail := by
  have nameChar : Cursor.isNameChar phrase.first :=
    phrase.isNameChar_of_mem _ List.mem_cons_self
  have taken := phrase.takeWhile_text ends
  rw [text, List.cons_append] at here
  rw [text, List.cons_append, List.takeWhile_cons_of_pos nameChar] at taken
  obtain ⟨_, passes⟩ := Cursor.readIdentifier_passes keepPosition here nameChar
  have rest := passes.rest
  rw [taken, here, ← List.cons_append] at rest
  exact (List.append_cancel_left rest).symm

/-- A literal is read to its closing delimiter. -/
theorem LiteralPhrase.exists_literalContents (phrase : LiteralPhrase)
    (here : cursor.rest = phrase.text ++ tail) :
    ∃ after, literalContents.Yields cursor (String.ofList phrase.contents) after ∧
      after.next.rest = tail := by
  have opened : cursor.rest = phrase.kind.mark :: (phrase.contents ++ phrase.kind.mark :: tail) := by
    rw [here, text]
    simp
  refine ⟨cursor.advance (phrase.contents.length + 1),
    (yields_literalContents opened phrase.kind.mark_ne_escapeLetter).mpr
      ⟨_, _, rfl, phrase.delimited, rfl, rfl⟩, ?_⟩
  rw [← Cursor.advance_succ, Cursor.rest_advance, opened]
  simp [← List.drop_drop]

/-- Where an operand stands the source goes on. -/
theorem OperandPhrase.going (phrase : OperandPhrase) (here : cursor.rest = phrase.text ++ tail) :
    cursor.exhausted = false := by
  cases phrase <;> exact (Cursor.rest_eq_cons.mp here).1

/-- A literal is read as its scalar, whatever comes behind it. -/
theorem Operand.exists_parse_literal (phrase : LiteralPhrase)
    (here : cursor.rest = phrase.text ++ tail) :
    ∃ after, Operand.parse.Yields cursor (.literal phrase.scalar) after ∧
      after.next.rest = tail := by
  obtain ⟨going, current, _⟩ := Cursor.rest_eq_cons.mp here
  obtain ⟨after, yields, left⟩ := phrase.exists_literalContents here
  have lower := phrase.kind.mark_not_isUpper
  have notInput := phrase.kind.mark_ne_u
  have marked := LiteralKind.ofMark?_eq_some.mpr (rfl : phrase.kind.mark = phrase.kind.mark)
  refine ⟨after, ?_, left⟩
  simp only [Operand.parse, yields_bind, yields_cursor, and_assoc, exists_and_left,
    exists_eq_left', going, current, lower, notInput, marked, Bool.false_eq_true, if_false]
  refine ⟨_, _, yields, ?_⟩
  rw [LiteralKind.read, phrase.denotes]
  rfl

theorem Operand.exists_parse (phrase : OperandPhrase)
    (here : cursor.rest = phrase.text ++ tail) (ends : Ends Cursor.isNameChar tail) :
    ∃ operand after, Operand.parse.Yields cursor operand after ∧ after.next.rest = tail := by
  cases phrase with
  | «variable» name =>
      obtain ⟨going, current, _⟩ := Cursor.rest_eq_cons.mp here
      have upper : cursor.current.isUpper := current ▸ name.first_isUpper
      refine ⟨.variable (cursor.readIdentifier true).1, (cursor.readIdentifier true).2, ?_,
        name.rest_readIdentifier true here ends⟩
      simp only [Operand.parse, yields_bind, yields_cursor, and_assoc, exists_and_left,
        exists_eq_left', going, upper, Bool.false_eq_true, if_false, if_true]
      exact ⟨_, _, yields_name.mpr ⟨rfl, rfl⟩, rfl⟩
  | input =>
      obtain ⟨going, current, rfl⟩ := Cursor.rest_eq_cons.mp here
      refine ⟨.input, cursor, ?_, Cursor.rest_next_of_cons here⟩
      simp only [Operand.parse, yields_bind, yields_cursor, and_assoc, exists_and_left,
        exists_eq_left', going, current, Bool.false_eq_true, if_false, if_true]
      rfl
  | literal phrase => exact ⟨_, exists_parse_literal phrase here⟩

namespace Value

/-- Where a value ends there is no operator. -/
theorem ofMark?_of_ends (ends : Ends ValuePhrase.more tail) {c : Char}
    (next : tail.head? = some c) : Operator.ofMark? c = none := by
  have ended := ends c next
  rw [ValuePhrase.more, Bool.or_eq_false_iff] at ended
  simpa [Arithmetic.isLetter] using ended.2

/-- Where no operator stands behind an operand the value ends. -/
theorem yields_parseRest_nil {fuel : Nat}
    (stops : ∀ c, cursor.next.rest.head? = some c → Operator.ofMark? c = none) :
    (parseRest (fuel + 1)).Yields cursor [] cursor.next := by
  simp only [parseRest, yields_bind, yields_step, yields_cursor, and_assoc, exists_and_left,
    exists_eq_left', exists_const]
  cases going : cursor.next.exhausted with
  | true => rfl
  | false =>
      rw [Cursor.rest_of_going (by rw [going]; exact Bool.false_ne_true)] at stops
      rw [stops _ rfl]
      rfl

theorem leaves_parseRest {fuel : Nat} {links : List (Arithmetic × OperandPhrase)}
    (enough : cursor.next.rest.length < fuel)
    (here : cursor.next.rest = ValuePhrase.linksText links ++ tail)
    (ends : Ends ValuePhrase.more tail) : (parseRest fuel).Leaves cursor tail := by
  induction links generalizing fuel cursor with
  | nil =>
      cases fuel with
      | zero => cases enough
      | succ fuel =>
          refine ⟨[], cursor.next, yields_parseRest_nil fun c next => ?_, here⟩
          rw [here] at next
          exact ofMark?_of_ends ends next
  | cons link links inductionHypothesis =>
      rcases link with ⟨operator, operand⟩
      cases fuel with
      | zero => cases enough
      | succ fuel =>
          have opened : cursor.next.rest =
              operator.letter :: (operand.text ++ (ValuePhrase.linksText links ++ tail)) := by
            rw [here]
            simp [ValuePhrase.linksText]
          obtain ⟨going, current, _⟩ := Cursor.rest_eq_cons.mp opened
          have behind := Cursor.rest_next_of_cons opened
          have goingOn : cursor.next.next.exhausted = false := operand.going behind
          have marked := Operator.ofMark?_eq_some.mpr ⟨operator, rfl, rfl⟩
          have operandEnds := ValuePhrase.ends_links links ends
          obtain ⟨read, middle, yields, left⟩ := Operand.exists_parse operand behind operandEnds
          have shorter : middle.next.rest.length < fuel := by
            rw [opened] at enough
            rw [left]
            simp only [List.length_cons, List.length_append] at enough ⊢
            omega
          apply leaves_step
          apply leaves_cursor
          rw [going, current, marked]
          apply leaves_step
          apply leaves_cursor
          rw [goingOn]
          apply yields.leaves_bind
          exact Leaves.bind (inductionHypothesis shorter left) fun _ _ _ there =>
            leaves_pure _ there

theorem leaves_parse (phrase : ValuePhrase) (here : cursor.rest = phrase.text ++ tail)
    (ends : Ends ValuePhrase.more tail) : Value.parse.Leaves cursor tail := by
  rw [ValuePhrase.text, List.append_assoc] at here
  have operandEnds := ValuePhrase.ends_links phrase.rest ends
  obtain ⟨read, middle, yields, left⟩ := Operand.exists_parse phrase.first here operandEnds
  have enough : middle.next.rest.length < middle.after.length + 1 := by
    rw [Cursor.rest_next, Cursor.rest]
    split <;> simp
  apply yields.leaves_bind
  apply leaves_cursor
  exact Leaves.bind (leaves_parseRest enough left ends) fun _ _ _ there => leaves_pure _ there

end Value

/-! ### Conditions -/

namespace Comparator

/-- A spelling that is not too long takes the next letter, and goes on unless it is `t`. -/
theorem yields_parseSpelling_succ {fuel : Nat} {spelled longer : String} {after : Cursor}
    (going : cursor.exhausted = false) (room : spelled.utf8ByteSize < longestSpelling) :
    (parseSpelling (fuel + 1) spelled).Yields cursor longer after ↔
      if cursor.current = 't' then spelled.push 't' = longer ∧ cursor.next = after
      else (parseSpelling fuel (spelled.push cursor.current)).Yields cursor.next longer after := by
  have room : ¬longestSpelling ≤ spelled.utf8ByteSize := Nat.not_le_of_lt room
  simp only [parseSpelling, yields_bind, yields_cursor, and_assoc, exists_and_left,
    exists_eq_left', going, room, decide_false, Bool.or_false, Bool.false_eq_true, if_false,
    yields_step, exists_const]
  by_cases last : cursor.current = 't'
  · rw [if_pos last, if_pos last, last, yields_pure]
  · rw [if_neg last, if_neg last]

/-- Letters of a byte each are read up to the first `t`, if there are not too many. -/
theorem exists_parseSpelling {fuel : Nat} {spelled : String} {letters : List Char}
    (here : cursor.rest = letters ++ 't' :: tail)
    (others : ∀ c ∈ letters, c ≠ 't' ∧ c.utf8Size = 1) (enough : letters.length < fuel)
    (short : spelled.utf8ByteSize + letters.length < longestSpelling) :
    ∃ after, (parseSpelling fuel spelled).Yields cursor
      (spelled ++ String.ofList (letters ++ ['t'])) after ∧ after.rest = tail := by
  induction letters generalizing fuel spelled cursor with
  | nil =>
      cases fuel with
      | zero => cases enough
      | succ fuel =>
          obtain ⟨going, current, _⟩ := Cursor.rest_eq_cons.mp here
          refine ⟨cursor.next, ?_, Cursor.rest_next_of_cons here⟩
          rw [yields_parseSpelling_succ going short, if_pos current]
          exact ⟨String.ext (by simp), rfl⟩
  | cons c letters inductionHypothesis =>
      cases fuel with
      | zero => cases enough
      | succ fuel =>
          rw [List.forall_mem_cons] at others
          rcases others with ⟨⟨ordinary, size⟩, others⟩
          rw [List.length_cons] at enough short
          obtain ⟨going, current, _⟩ := Cursor.rest_eq_cons.mp here
          have longer : (spelled.push c).utf8ByteSize + letters.length < longestSpelling := by
            rw [String.utf8ByteSize_push, size]
            omega
          obtain ⟨after, yields, left⟩ := inductionHypothesis (Cursor.rest_next_of_cons here)
            others (Nat.lt_of_succ_lt_succ enough) longer
          refine ⟨after, ?_, left⟩
          rw [yields_parseSpelling_succ going (by omega), current, if_neg ordinary]
          have same : spelled ++ String.ofList (c :: letters ++ ['t']) =
              spelled.push c ++ String.ofList (letters ++ ['t']) := String.ext (by simp)
          rwa [same]

theorem leaves_parse (comparator : Comparator)
    (here : cursor.rest = comparator.spelling ++ tail) : Comparator.parse.Leaves cursor tail := by
  have spelling : ∃ letters, comparator.spelling = letters ++ ['t'] ∧
      (∀ c ∈ letters, c ≠ 't' ∧ c.utf8Size = 1) ∧ letters.length < longestSpelling := by
    cases comparator
    · exact ⟨['e'], rfl, by simp [Char.utf8Size], by decide⟩
    · exact ⟨['a'], rfl, by simp [Char.utf8Size], by decide⟩
    · exact ⟨['g'], rfl, by simp [Char.utf8Size], by decide⟩
    · exact ⟨['g', 'e'], rfl, by simp [Char.utf8Size], by decide⟩
    · exact ⟨['l'], rfl, by simp [Char.utf8Size], by decide⟩
    · exact ⟨['l', 'e'], rfl, by simp [Char.utf8Size], by decide⟩
  rcases spelling with ⟨letters, split, others, short⟩
  rw [split, List.append_assoc] at here
  have fits : "".utf8ByteSize + letters.length < longestSpelling := by simpa using short
  obtain ⟨after, yields, left⟩ := exists_parseSpelling here others short fits
  have spelled : ("" ++ String.ofList (letters ++ ['t'])).toList = comparator.spelling := by
    simp [split]
  apply leaves_cursor
  apply yields.leaves_bind
  rw [if_neg, ofSpelling?_eq_some.mpr spelled]
  · exact leaves_pure _ left
  · intro empty
    rw [empty, split] at spelled
    simp at spelled

end Comparator

namespace Condition

theorem leaves_parseComparison (phrase : ComparisonPhrase)
    (here : cursor.rest = phrase.text ++ tail) (ends : Ends ValuePhrase.more tail) :
    parseComparison.Leaves cursor tail := by
  rw [ComparisonPhrase.text, List.append_assoc, List.append_assoc] at here
  apply (Value.leaves_parse phrase.left here (ComparisonPhrase.ends_spelling _ _)).bind
  intro left behindLeft _ here
  apply (Comparator.leaves_parse phrase.comparator here).bind
  intro comparator behindComparator _ here
  apply (Value.leaves_parse phrase.right here ends).bind
  intro right behindRight _ here
  exact leaves_pure _ here

/-- Where a condition ends there is no connective. -/
theorem ofMark?_of_ends (going : cursor.exhausted = false) (here : cursor.rest = tail)
    (ends : Ends ConditionPhrase.more tail) : Connective.ofMark? cursor.current = none := by
  rw [← here, Cursor.rest_of_going (by rw [going]; nofun), ends_cons] at ends
  rw [ConditionPhrase.more, Bool.or_eq_false_iff] at ends
  simpa [Connective.isLetter] using ends.2

theorem leaves_parseLinks {fuel : Nat} {links : List (Connective × ComparisonPhrase)}
    (enough : cursor.rest.length ≤ fuel)
    (here : cursor.rest = ConditionPhrase.linksText links ++ tail)
    (ends : Ends ConditionPhrase.more tail) : (parseLinks fuel).Leaves cursor tail := by
  induction links generalizing fuel cursor with
  | nil =>
      cases fuel with
      | zero => exact leaves_pure _ here
      | succ fuel =>
          apply leaves_cursor
          cases going : cursor.exhausted with
          | true => exact leaves_pure _ here
          | false =>
              rw [ofMark?_of_ends going here ends]
              exact leaves_pure _ here
  | cons link links inductionHypothesis =>
      rcases link with ⟨connective, comparison⟩
      have opened : cursor.rest = connective.letter ::
          (comparison.text ++ (ConditionPhrase.linksText links ++ tail)) := by
        rw [here]
        simp [ConditionPhrase.linksText]
      rw [opened, List.length_cons, List.length_append] at enough
      cases fuel with
      | zero => cases enough
      | succ fuel =>
          obtain ⟨going, current, _⟩ := Cursor.rest_eq_cons.mp opened
          have marked := Connective.ofMark?_eq_some.mpr (rfl : connective.letter = _)
          apply leaves_cursor
          rw [going, current, marked]
          apply leaves_step
          apply (leaves_parseComparison comparison (Cursor.rest_next_of_cons opened)
            (ConditionPhrase.ends_links links ends)).bind
          intro condition middle _ there
          have shorter : middle.rest.length ≤ fuel := by
            rw [there]
            omega
          apply (inductionHypothesis shorter there).bind
          intro members after _ there
          exact leaves_pure _ there

theorem leaves_parse (phrase : ConditionPhrase) (here : cursor.rest = phrase.text ++ tail)
    (ends : Ends ConditionPhrase.more tail) : Condition.parse.Leaves cursor tail := by
  rw [ConditionPhrase.text, List.append_assoc] at here
  apply (leaves_parseComparison phrase.first here (ConditionPhrase.ends_links _ ends)).bind
  intro head middle _ there
  apply leaves_cursor
  apply (leaves_parseLinks (Nat.le_of_eq Cursor.remaining_eq.symm) there ends).bind
  intro members after _ there
  exact leaves_pure _ there

end Condition

/-! ### Instructions -/

theorem Modification.leaves_parse (phrase : ModificationPhrase)
    (here : cursor.rest = phrase.text ++ tail) (ends : Ends ValuePhrase.more tail) :
    Modification.parse.Leaves cursor tail := by
  apply leaves_cursor
  cases phrase with
  | increment =>
      obtain ⟨going, current, _⟩ := Cursor.rest_eq_cons.mp here
      have behind := Cursor.rest_next_of_cons here
      obtain ⟨goingOn, second, _⟩ := Cursor.rest_eq_cons.mp behind
      rw [going, current]
      apply leaves_step
      apply leaves_cursor
      rw [goingOn, second]
      exact leaves_step (leaves_pure _ (Cursor.rest_next_of_cons behind))
  | decrement =>
      obtain ⟨going, current, _⟩ := Cursor.rest_eq_cons.mp here
      have behind := Cursor.rest_next_of_cons here
      obtain ⟨goingOn, second, _⟩ := Cursor.rest_eq_cons.mp behind
      rw [going, current]
      apply leaves_step
      apply leaves_cursor
      rw [goingOn, second]
      exact leaves_step (leaves_pure _ (Cursor.rest_next_of_cons behind))
  | compound operator value =>
      obtain ⟨going, current, _⟩ := Cursor.rest_eq_cons.mp here
      have behind := Cursor.rest_next_of_cons here
      obtain ⟨goingOn, second, _⟩ := Cursor.rest_eq_cons.mp behind
      have marked := Operator.ofMark?_eq_some.mpr ⟨operator, rfl, rfl⟩
      have notAssign : operator.letter ≠ 'e' := by cases operator <;> decide
      rw [going, current, if_neg (by nofun), if_neg notAssign, marked]
      apply leaves_step
      apply leaves_cursor
      rw [goingOn, second]
      apply leaves_step
      apply (Value.leaves_parse value (Cursor.rest_next_of_cons behind) ends).bind
      intro value after _ there
      exact leaves_pure _ there
  | assign value =>
      obtain ⟨going, current, _⟩ := Cursor.rest_eq_cons.mp here
      rw [going, current]
      apply leaves_step
      apply (Value.leaves_parse value (Cursor.rest_next_of_cons here) ends).bind
      intro value after _ there
      exact leaves_pure _ there

/-- The text in front of a run of instructions is that of phrases that the run takes, with
what it leaves behind them. -/
def Stop.Expects (stop : Stop) (phrases : List InstructionPhrase) (here tail : List Char) :
    Prop :=
  match stop with
  | .sourceEnd => here = InstructionPhrase.textAll phrases ∧ tail = []
  | .bodyEnd _ => here = InstructionPhrase.textAll phrases ++ 'z' :: tail
  | .segmentEnd segment =>
      here = InstructionPhrase.textAll phrases ++ tail ∧ tail.head? = some segment.mark ∧
        ∀ phrase ∈ phrases, segment.allows phrase.kind

namespace InstructionPhrase

theorem allows_heads (heads : List HeadPhrase) :
    ∀ phrase ∈ heads.map ofHead, Segment.initialization.allows phrase.kind := by
  rw [List.forall_mem_map]
  intro head _
  cases head <;> rfl

theorem allows_changes (changes : List ChangePhrase) :
    ∀ phrase ∈ changes.map modify, Segment.update.allows phrase.kind := by
  rw [List.forall_mem_map]
  intro change _
  rfl

/-- The text of an alternative that may follow a branch. -/
def elseText : Option (List InstructionPhrase) → List Char
  | none => []
  | some elseBody => 'e' :: 't' :: (textAll elseBody ++ ['z'])

theorem text_branch (condition : ConditionPhrase) (thenBody : List InstructionPhrase)
    (elseBody : Option (List InstructionPhrase)) :
    text (.branch condition thenBody elseBody) =
      'j' :: (condition.text ++ 't' :: (textAll thenBody ++ 'z' :: elseText elseBody)) := by
  cases elseBody <;> simp [text, elseText]

end InstructionPhrase

namespace Stop.Expects

open InstructionPhrase

/-- What is expected begins with the first phrase, which the run takes. -/
theorem uncons {stop : Stop} {phrase : InstructionPhrase}
    {rest : List InstructionPhrase} {here : List Char}
    (expects : stop.Expects (phrase :: rest) here tail) :
    ∃ behind, here = phrase.text ++ behind ∧ stop.Expects rest behind tail ∧
      ∀ segment, stop = .segmentEnd segment → segment.allows phrase.kind := by
  cases stop with
  | sourceEnd =>
      rcases expects with ⟨rfl, rfl⟩
      exact ⟨textAll rest, rfl, ⟨rfl, rfl⟩, nofun⟩
  | bodyEnd start =>
      rw [Stop.Expects, textAll, List.append_assoc] at expects
      exact ⟨_, expects, rfl, nofun⟩
  | segmentEnd segment =>
      rcases expects with ⟨text, marked, allowed⟩
      rw [List.forall_mem_cons] at allowed
      rw [textAll, List.append_assoc] at text
      refine ⟨_, text, ⟨rfl, marked, allowed.2⟩, fun other same => ?_⟩
      cases same
      exact allowed.1

/-- No run goes on as a branch does. -/
theorem ends {stop : Stop} {phrases : List InstructionPhrase} {here : List Char}
    (expects : stop.Expects phrases here tail) : Ends more here := by
  cases stop with
  | sourceEnd =>
      rw [expects.1, ← List.append_nil (textAll phrases)]
      exact ends_textAll phrases ends_nil
  | bodyEnd start =>
      rw [expects]
      exact ends_textAll phrases ends_bodyEnd
  | segmentEnd segment =>
      rcases expects with ⟨rfl, marked, _⟩
      refine ends_textAll phrases fun c first => ?_
      rw [marked, Option.some.injEq] at first
      rw [← first]
      cases segment <;> rfl

end Stop.Expects

namespace Instruction

open InstructionPhrase

/-- A reader of runs is complete on cursors with so many characters in front of them. -/
def CompleteRun (bound : Nat) (run : Stop → Parser (List Instruction)) : Prop :=
  ∀ {stop : Stop} {phrases : List InstructionPhrase} {cursor : Cursor} {tail : List Char},
    cursor.rest.length ≤ bound → stop.Expects phrases cursor.rest tail →
      (run stop).Leaves cursor tail

variable {bound : Nat} {run : Stop → Parser (List Instruction)}

theorem leaves_parseEnd (start : Nat) (here : cursor.rest = 'l' :: tail) :
    (parseEnd start).Leaves cursor tail := by
  apply (leaves_expect here).bind
  intro _ middle _ there
  exact leaves_cursor (leaves_pure _ there)

theorem leaves_parseBody {phrases : List InstructionPhrase} (complete : CompleteRun bound run)
    (enough : cursor.rest.length ≤ bound + 1)
    (here : cursor.rest = 't' :: (textAll phrases ++ 'z' :: tail)) :
    (parseBody run).Leaves cursor tail := by
  rw [here, List.length_cons] at enough
  apply (leaves_expect here).bind
  intro _ middle _ there
  apply leaves_cursor
  rw [← there] at enough
  exact complete (Nat.le_of_succ_le_succ enough) there

/-- The first segment of a loop head is read up to its mark. -/
theorem CompleteRun.leaves_heads {heads : List HeadPhrase} (complete : CompleteRun bound run)
    (enough : cursor.rest.length ≤ bound)
    (here : cursor.rest = heads.flatMap HeadPhrase.text ++ 'k' :: tail) :
    (run (.segmentEnd .initialization)).Leaves cursor ('k' :: tail) := by
  rw [← textAll_heads] at here
  have expects : (Stop.segmentEnd .initialization).Expects (heads.map ofHead) cursor.rest
      ('k' :: tail) := ⟨here, rfl, allows_heads heads⟩
  exact complete enough expects

/-- The last segment of a loop head is read up to its mark. -/
theorem CompleteRun.leaves_changes {changes : List ChangePhrase}
    (complete : CompleteRun bound run) (enough : cursor.rest.length ≤ bound)
    (here : cursor.rest = changes.flatMap ChangePhrase.text ++ 't' :: tail) :
    (run (.segmentEnd .update)).Leaves cursor ('t' :: tail) := by
  rw [← textAll_changes] at here
  have expects : (Stop.segmentEnd .update).Expects (changes.map InstructionPhrase.modify)
      cursor.rest ('t' :: tail) := ⟨here, rfl, allows_changes changes⟩
  exact complete enough expects

theorem leaves_parseDeclaration {start : Nat} {name : NamePhrase} {value : ValuePhrase}
    (here : cursor.rest = name.text ++ 'e' :: (value.text ++ 'l' :: tail)) :
    (parseDeclaration start).Leaves cursor tail := by
  obtain ⟨going, current, _⟩ := Cursor.rest_eq_cons.mp here
  have upper : cursor.current.isUpper := current ▸ name.first_isUpper
  have behind := name.rest_readIdentifier false here (by rw [ends_cons]; rfl)
  apply leaves_cursor
  rw [going, upper]
  apply (yields_name.mpr ⟨rfl, rfl⟩).leaves_bind
  apply (leaves_expect behind).bind
  intro _ assigned _ there
  apply (Value.leaves_parse value there ends_instructionEnd).bind
  intro result last _ there
  apply (leaves_parseEnd start there).bind
  intro span after _ there
  exact leaves_pure _ there

theorem leaves_spanFrom (start : Nat) (here : cursor.rest = tail) :
    (spanFrom start).Leaves cursor tail :=
  leaves_cursor (leaves_pure _ here)

/-- Behind a body stands an alternative, or what cannot be one. -/
theorem leaves_parseElse {elseBody : Option (List InstructionPhrase)}
    (complete : CompleteRun bound run) (enough : cursor.rest.length ≤ bound + 1)
    (ends : Ends more tail) (here : cursor.rest = elseText elseBody ++ tail) :
    (parseElse run).Leaves cursor tail := by
  apply leaves_cursor
  cases elseBody with
  | none =>
      have absent : (!cursor.exhausted && cursor.current == 'e') = false := by
        cases going : cursor.exhausted with
        | true => rfl
        | false =>
            rw [elseText, List.nil_append] at here
            rw [← here, Cursor.rest_of_going (by rw [going]; nofun), ends_cons] at ends
            exact ends
      rw [absent]
      exact leaves_pure _ here
  | some phrases =>
      simp only [elseText, List.cons_append, List.append_assoc, List.nil_append] at here
      obtain ⟨going, current, _⟩ := Cursor.rest_eq_cons.mp here
      have there := Cursor.rest_next_of_cons here
      rw [here, ← there, List.length_cons] at enough
      rw [going, current]
      apply leaves_step
      apply (leaves_parseBody complete (Nat.le_of_succ_le enough) there).bind
      intro body after _ there
      exact leaves_pure _ there

/-- A branch behind its first letter. -/
theorem leaves_branch (start : Nat) {condition : ConditionPhrase}
    {thenBody : List InstructionPhrase} {elseBody : Option (List InstructionPhrase)}
    (complete : CompleteRun bound run) (enough : cursor.rest.length ≤ bound)
    (ends : Ends more tail)
    (here : cursor.rest =
      condition.text ++ 't' :: (textAll thenBody ++ 'z' :: (elseText elseBody ++ tail))) :
    (do
      let condition ← Condition.parse
      let thenBody ← parseBody run
      let elseBody ← parseElse run
      return Instruction.branch condition thenBody elseBody (← spanFrom start) :
      Parser Instruction).Leaves cursor tail := by
  simp only [here, List.length_append, List.length_cons] at enough
  apply (Condition.leaves_parse condition here (ends_mark (Or.inl rfl))).bind
  intro result behindCondition _ there
  have shorter : behindCondition.rest.length ≤ bound + 1 := by
    simp only [there, List.length_append, List.length_cons]
    omega
  apply (leaves_parseBody complete shorter there).bind
  intro instructions behindThen _ there
  have shorter : behindThen.rest.length ≤ bound + 1 := by
    simp only [there, List.length_append]
    omega
  apply (leaves_parseElse complete shorter ends there).bind
  intro alternative behindElse _ there
  apply (leaves_spanFrom start there).bind
  intro span after _ there
  exact leaves_pure _ there

/-- A `while` behind its first letter. -/
theorem leaves_while (start : Nat) {condition : ConditionPhrase}
    {body : List InstructionPhrase} (complete : CompleteRun bound run)
    (enough : cursor.rest.length ≤ bound)
    (here : cursor.rest = condition.text ++ 't' :: (textAll body ++ 'z' :: tail)) :
    (do
      let condition ← Condition.parse
      let body ← parseBody run
      return Instruction.whileLoop condition body (← spanFrom start) :
      Parser Instruction).Leaves cursor tail := by
  simp only [here, List.length_append, List.length_cons] at enough
  apply (Condition.leaves_parse condition here (ends_mark (Or.inl rfl))).bind
  intro result behindCondition _ there
  have shorter : behindCondition.rest.length ≤ bound + 1 := by
    simp only [there, List.length_append, List.length_cons]
    omega
  apply (leaves_parseBody complete shorter there).bind
  intro instructions behindBody _ there
  apply (leaves_spanFrom start there).bind
  intro span after _ there
  exact leaves_pure _ there

/-- A `for` behind its first letter. -/
theorem leaves_for (start : Nat) {init : List HeadPhrase} {condition : ConditionPhrase}
    {update : List ChangePhrase} {body : List InstructionPhrase}
    (complete : CompleteRun bound run) (enough : cursor.rest.length ≤ bound)
    (here : cursor.rest = init.flatMap HeadPhrase.text ++ 'k' :: (condition.text ++ 'k' ::
      (update.flatMap ChangePhrase.text ++ 't' :: (textAll body ++ 'z' :: tail)))) :
    (do
      let init ← run (.segmentEnd .initialization)
      Parser.expect 'k' .loopSeparator
      let condition ← Condition.parse
      Parser.expect 'k' .loopSeparator
      let update ← run (.segmentEnd .update)
      let body ← parseBody run
      return Instruction.forLoop init condition update body (← spanFrom start) :
      Parser Instruction).Leaves cursor tail := by
  apply (complete.leaves_heads enough here).bind
  intro initInstructions behindInit _ there
  simp only [here, List.length_append, List.length_cons] at enough
  apply (leaves_expect there).bind
  intro _ separated _ there
  apply (Condition.leaves_parse condition there (ends_mark (Or.inr rfl))).bind
  intro result behindCondition _ there
  apply (leaves_expect there).bind
  intro _ separatedAgain _ there
  have shorter : separatedAgain.rest.length ≤ bound := by
    simp only [there, List.length_append, List.length_cons]
    omega
  apply (complete.leaves_changes shorter there).bind
  intro updateInstructions behindUpdate _ there
  have shorter : behindUpdate.rest.length ≤ bound + 1 := by
    simp only [there, List.length_append, List.length_cons]
    omega
  apply (leaves_parseBody complete shorter there).bind
  intro instructions behindBody _ there
  apply (leaves_spanFrom start there).bind
  intro span after _ there
  exact leaves_pure _ there

/-- A change, whose name tells it from other instructions. -/
theorem leaves_modify {change : ChangePhrase} (here : cursor.rest = change.text ++ tail) :
    (Instruction.parse run).Leaves cursor tail := by
  simp only [ChangePhrase.text, List.append_assoc, List.cons_append, List.nil_append] at here
  obtain ⟨going, current, _⟩ := Cursor.rest_eq_cons.mp here
  have upper : cursor.current.isUpper := current ▸ change.name.first_isUpper
  have behind := change.name.rest_readIdentifier false here (change.modification.ends_text _)
  apply leaves_cursor
  rw [upper]
  apply (yields_name.mpr ⟨rfl, rfl⟩).leaves_bind
  apply (Modification.leaves_parse change.modification behind ends_instructionEnd).bind
  intro modification middle _ there
  apply (leaves_parseEnd _ there).bind
  intro span after _ there
  exact leaves_pure _ there

/-- An instruction is read to its end if the runs inside it are. -/
theorem leaves_parse (phrase : InstructionPhrase) (complete : CompleteRun bound run)
    (enough : cursor.rest.length ≤ bound + 1) (here : cursor.rest = phrase.text ++ tail)
    (ends : Ends more tail) : (Instruction.parse run).Leaves cursor tail := by
  have shorter : cursor.next.rest.length ≤ bound := by
    rw [Cursor.rest_next, List.length_tail]
    omega
  cases phrase with
  | modify change => exact leaves_modify here
  | exit =>
      obtain ⟨_, current, _⟩ := Cursor.rest_eq_cons.mp here
      apply leaves_cursor
      rw [current]
      apply leaves_step
      apply (leaves_parseEnd _ (Cursor.rest_next_of_cons here)).bind
      intro span after _ there
      exact leaves_pure _ there
  | print value =>
      rw [text, List.cons_append, List.append_assoc] at here
      obtain ⟨_, current, _⟩ := Cursor.rest_eq_cons.mp here
      apply leaves_cursor
      rw [current]
      apply leaves_step
      apply (Value.leaves_parse value (Cursor.rest_next_of_cons here) ends_instructionEnd).bind
      intro result middle _ there
      apply (leaves_parseEnd _ there).bind
      intro span after _ there
      exact leaves_pure _ there
  | declare declaration =>
      simp only [text, DeclarationPhrase.text, List.cons_append, List.append_assoc,
        List.nil_append] at here
      obtain ⟨_, current, _⟩ := Cursor.rest_eq_cons.mp here
      apply leaves_cursor
      rw [current]
      apply leaves_step
      exact leaves_parseDeclaration (Cursor.rest_next_of_cons here)
  | branch condition thenBody elseBody =>
      simp only [text_branch, List.append_assoc, List.cons_append] at here
      obtain ⟨_, current, _⟩ := Cursor.rest_eq_cons.mp here
      apply leaves_cursor
      rw [current]
      apply leaves_step
      exact leaves_branch _ complete shorter ends (Cursor.rest_next_of_cons here)
  | whileLoop condition body =>
      simp only [text, List.append_assoc, List.cons_append, List.nil_append] at here
      obtain ⟨_, current, _⟩ := Cursor.rest_eq_cons.mp here
      apply leaves_cursor
      rw [current]
      apply leaves_step
      exact leaves_while _ complete shorter (Cursor.rest_next_of_cons here)
  | forLoop init condition update body =>
      simp only [text, List.append_assoc, List.cons_append, List.nil_append] at here
      obtain ⟨_, current, _⟩ := Cursor.rest_eq_cons.mp here
      apply leaves_cursor
      rw [current]
      apply leaves_step
      exact leaves_for _ complete shorter (Cursor.rest_next_of_cons here)

/-- Instructions start with letters at which no run stops. -/
theorem stopsAt_of_starts {c : Char} (stop : Stop) (startsHere : starts c) :
    stopsAt c stop = false := by
  rw [← Bool.not_eq_true]
  intro stops
  cases stop with
  | sourceEnd => cases stops
  | bodyEnd start =>
      rw [beq_iff_eq.mp stops] at startsHere
      cases startsHere
  | segmentEnd segment =>
      rw [beq_iff_eq.mp stops] at startsHere
      cases segment <;> cases startsHere

/-- With nothing more to take, a run stops where it has to. -/
theorem leaves_parseRun_nil {fuel : Nat} {stop : Stop}
    (expects : stop.Expects [] cursor.rest tail) :
    (parseRun (fuel + 1) stop).Leaves cursor tail := by
  apply leaves_cursor
  cases stop with
  | sourceEnd =>
      rcases expects with ⟨finished, rfl⟩
      rw [Cursor.exhausted_iff.mpr finished]
      exact leaves_pure _ finished
  | bodyEnd start =>
      obtain ⟨going, current, _⟩ := Cursor.rest_eq_cons.mp expects
      rw [going, current]
      exact leaves_step (leaves_pure _ (Cursor.rest_next_of_cons expects))
  | segmentEnd segment =>
      rcases expects with ⟨here, marked, _⟩
      obtain ⟨others, rfl⟩ := List.head?_eq_some_iff.mp marked
      obtain ⟨going, current, _⟩ := Cursor.rest_eq_cons.mp here
      have stops : stopsAt segment.mark (.segmentEnd segment) := beq_self_eq_true _
      rw [going, current, stops]
      exact leaves_pure _ here

/-- The instruction that is read is of the kind of the phrase that stands there. -/
theorem kind_of_yields {fuel : Nat} {phrase : InstructionPhrase} {instruction : Instruction}
    {after : Cursor} (enough : cursor.rest.length ≤ fuel + 1)
    (here : cursor.rest = phrase.text ++ tail)
    (yields : (Instruction.parse (parseRun fuel)).Yields cursor instruction after) :
    instruction.kind = phrase.kind := by
  have going : ¬cursor.exhausted = true := by
    rw [Cursor.exhausted_iff, here]
    simp [phrase.text_ne_nil]
  obtain ⟨read, passes, rfl⟩ := passes_of_parse (soundRun_parseRun fuel) enough going yields
  rw [kind_instruction]
  exact kind_unique (passes.rest.symm.trans here)

/-- The parser of runs is complete if its fuel covers what remains of the source. -/
theorem completeRun_parseRun (fuel : Nat) : CompleteRun fuel (parseRun fuel) := by
  induction fuel with
  | zero =>
      intro stop phrases cursor tail enough expects
      have finished : cursor.rest = [] := List.eq_nil_of_length_eq_zero (Nat.le_zero.mp enough)
      rw [finished] at expects
      cases stop with
      | sourceEnd => exact leaves_pure _ (by rw [finished, expects.2])
      | bodyEnd start => simp [Stop.Expects] at expects
      | segmentEnd segment =>
          rcases expects with ⟨text, marked, _⟩
          rw [(List.append_eq_nil_iff.mp text.symm).2] at marked
          cases marked
  | succ fuel inductionHypothesis =>
      intro stop phrases cursor tail enough expects
      cases phrases with
      | nil => exact leaves_parseRun_nil expects
      | cons phrase rest =>
          obtain ⟨behind, here, restExpects, permitted⟩ := Stop.Expects.uncons expects
          obtain ⟨c, letters, shape, startsHere⟩ := phrase.text_starts
          have opened : cursor.rest = c :: (letters ++ behind) := by
            rw [here, shape, List.cons_append]
          obtain ⟨going, current, _⟩ := Cursor.rest_eq_cons.mp opened
          apply leaves_cursor
          rw [going, current, stopsAt_of_starts stop startsHere]
          apply (leaves_parse phrase inductionHypothesis enough here
            (Stop.Expects.ends restExpects)).bind
          intro instruction middle yields there
          rw [← kind_of_yields enough here yields] at permitted
          have allowed : (permit stop instruction).Yields middle () middle :=
            yields_permit.mpr ⟨permitted, rfl⟩
          apply allowed.leaves_bind
          have shorter : middle.rest.length ≤ fuel := by
            rw [opened, List.length_cons, List.length_append] at enough
            rw [there]
            omega
          rw [← there] at restExpects
          apply (inductionHypothesis shorter restExpects).bind
          intro instructions after _ last
          exact leaves_pure _ last

end Instruction

/-- The text of a derivation is read, if it has a character and no space. -/
theorem Program.exists_parse {source : String} (phrase : ProgramPhrase)
    (text : phrase.text = source.toList) (filled : source.toList ≠ [])
    (spaceless : ' ' ∉ source.toList) : ∃ program, Program.parse source = .ok program := by
  obtain ⟨cursor, opened⟩ := Cursor.exists_ofSource filled spaceless
  obtain ⟨here, _⟩ := Cursor.ofSource_eq_ok opened
  have expects : Stop.sourceEnd.Expects phrase.instructions cursor.rest [] :=
    ⟨here.trans text.symm, rfl⟩
  have enough : cursor.rest.length ≤ cursor.remaining := Nat.le_of_eq Cursor.remaining_eq.symm
  have whole : Program.parseInstructions.Leaves cursor [] :=
    leaves_cursor (Instruction.completeRun_parseRun _ enough expects)
  rcases whole with ⟨instructions, after, yields, _⟩
  rw [Program.parse, runFrom_eq_ok.mpr ⟨cursor, opened, yields⟩]
  exact ⟨_, rfl⟩

/-- A source that the parser takes has a program. -/
theorem Program.exists_parse_of_toBool (source : String) (takes : (parse source).toBool = true) :
    ∃ program, parse source = .ok program := by
  cases parsed : parse source with
  | ok program => exact ⟨program, rfl⟩
  | error error =>
      rw [parsed] at takes
      cases takes

/-- A source that is taken and whose program passes a test has such a program. -/
theorem Program.exists_parse_of_any (source : String) (test : Program → Bool)
    (passes : (parse source).toOption.any test = true) :
    ∃ program, parse source = .ok program ∧ test program = true := by
  cases parsed : parse source with
  | ok program =>
      rw [parsed] at passes
      exact ⟨program, rfl, passes⟩
  | error error =>
      rw [parsed] at passes
      cases passes

/-- The program of a derivation is what its text is read as. -/
theorem Program.parse_of_phrase {source : String} (phrase : ProgramPhrase)
    (text : phrase.text = source.toList) (filled : source.toList ≠ [])
    (spaceless : ' ' ∉ source.toList) : Program.parse source = .ok phrase.program := by
  obtain ⟨program, parsed⟩ := Program.exists_parse phrase text filled spaceless
  obtain ⟨_, _, other, otherText, rfl⟩ := Program.exists_phrase_of_parse parsed
  rw [parsed, ProgramPhrase.text_injective (otherText.trans text.symm)]

/-- The parser accepts exactly the texts of derivations that have a character and no space.
Such a text has one derivation only, and its program is what is read. -/
theorem Program.parse_iff_unique_derivation (source : String) (program : Program) :
    Program.parse source = .ok program ↔
      source.toList ≠ [] ∧ ' ' ∉ source.toList ∧
        ∃ phrase : ProgramPhrase, phrase.text = source.toList ∧ phrase.program = program ∧
          ∀ other : ProgramPhrase, other.text = source.toList → other = phrase := by
  constructor
  · intro parsed
    obtain ⟨filled, spaceless, phrase, text, rfl⟩ := Program.exists_phrase_of_parse parsed
    refine ⟨filled, spaceless, phrase, text, rfl, fun other otherText => ?_⟩
    exact ProgramPhrase.text_injective (otherText.trans text.symm)
  · intro evidence
    rcases evidence with ⟨filled, spaceless, phrase, text, rfl, _⟩
    exact Program.parse_of_phrase phrase text filled spaceless

end Letterline
