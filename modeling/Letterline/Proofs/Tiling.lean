/-
Module: Letterline.Proofs.Tiling
Purpose: The spans of a program cut its source up exactly, at every depth.
Trusted boundary: none
Main exports:
  Tiles, Instruction.bodies, Instruction.Within, Piece, Instruction.pieces, Spelled,
  Instruction.ExactIn, Program.spans_exact
-/
import Letterline.Proofs.ParserComplete
import Letterline.Proofs.Relocation

namespace Letterline

/-!
The instructions of a program stand one behind the other and leave nothing of the source
out.  So do those of a body between its two marks.  Nothing around an instruction has a part
in how it is read: its stretch of the source is the source of a program that is this
instruction alone.
-/

/-- The spans of instructions lie one behind the other from an index up to another one. -/
def Tiles : Nat → List Instruction → Nat → Prop
  | start, [], stop => start = stop
  | start, instruction :: rest, stop =>
      instruction.span.start = start ∧ Tiles instruction.span.stop rest stop

/-- What a text has between the ends of a span. -/
def Span.slice (span : Span) (text : List Char) : List Char :=
  (text.drop span.start).take (span.stop - span.start)

theorem Span.slice_over (front text back : List Char) :
    (Span.over front.length text).slice (front ++ (text ++ back)) = text := by
  rw [slice, Span.over, List.drop_left, Nat.add_sub_cancel_left, List.take_left]

namespace Instruction

/-- The bodies of an instruction, and the two parts of the head of a loop, which are
instructions too. -/
def bodies : Instruction → List (List Instruction)
  | .branch _ thenBody none _ => [thenBody]
  | .branch _ thenBody (some elseBody) _ => [thenBody, elseBody]
  | .whileLoop _ body _ => [body]
  | .forLoop init _ update body _ => [init, update, body]
  | _ => []

/-- An instruction stands in a body, or at any depth in a body of one that stands there. -/
inductive Within (instruction : Instruction) : List Instruction → Prop where
  | here {body : List Instruction} (member : instruction ∈ body) : Within instruction body
  | inside {body inner : List Instruction} {parent : Instruction} (member : parent ∈ body)
      (bodyOf : inner ∈ parent.bodies) (within : Within instruction inner) :
      Within instruction body

end Instruction

/-! ### What an instruction is written as -/

/-- A piece of the text of an instruction. -/
inductive Piece where
  | mark (letter : Char)
  | name (name : String)
  | value (value : Value)
  | condition (condition : Condition)
  | modification (modification : Modification)
  | body (instructions : List Instruction)

/-- A text that starts at an index is one of a piece.  That of a body is what its
instructions tile. -/
def Piece.Spells (start : Nat) (text : List Char) : Piece → Prop
  | .mark letter => text = [letter]
  | .name denoted => ∃ phrase : NamePhrase, phrase.text = text ∧ phrase.name = denoted
  | .value denoted => ∃ phrase : ValuePhrase, phrase.text = text ∧ phrase.value = denoted
  | .condition denoted =>
      ∃ phrase : ConditionPhrase, phrase.text = text ∧ phrase.condition = denoted
  | .modification denoted =>
      ∃ phrase : ModificationPhrase, phrase.text = text ∧ phrase.modification = denoted
  | .body instructions => Tiles start instructions (start + text.length)

/-- The pieces that an instruction is written as, with the marks between which its bodies
stand. -/
def Instruction.pieces : Instruction → List Piece
  | .exit _ => [.mark 'x', .mark 'l']
  | .print value _ => [.mark 'h', .value value, .mark 'l']
  | .declare name value _ => [.mark 'v', .name name, .mark 'e', .value value, .mark 'l']
  | .modify name modification _ => [.name name, .modification modification, .mark 'l']
  | .branch condition thenBody none _ =>
      [.mark 'j', .condition condition, .mark 't', .body thenBody, .mark 'z']
  | .branch condition thenBody (some elseBody) _ =>
      [.mark 'j', .condition condition, .mark 't', .body thenBody, .mark 'z',
        .mark 'e', .mark 't', .body elseBody, .mark 'z']
  | .whileLoop condition body _ =>
      [.mark 'r', .condition condition, .mark 't', .body body, .mark 'z']
  | .forLoop init condition update body _ =>
      [.mark 'f', .body init, .mark 'k', .condition condition, .mark 'k', .body update,
        .mark 't', .body body, .mark 'z']

/-- A text that starts at an index is made of the texts of pieces, in order and with nothing
in between. -/
inductive Spelled : Nat → List Piece → List Char → Prop where
  | nil {start : Nat} : Spelled start [] []
  | cons {start : Nat} {piece : Piece} {rest : List Piece} {own others : List Char}
      (spells : piece.Spells start own) (spelled : Spelled (start + own.length) rest others) :
      Spelled start (piece :: rest) (own ++ others)

theorem Spelled.mark {start : Nat} {letter : Char} {rest : List Piece} {others : List Char}
    (spelled : Spelled (start + 1) rest others) :
    Spelled start (.mark letter :: rest) (letter :: others) :=
  have spells : (Piece.mark letter).Spells start [letter] := rfl
  .cons spells spelled

/-- The span of an instruction is exact.  Its stretch of the source is what the instruction is
written as, its bodies lie strictly inside, and the stretch alone is read as the instruction,
moved to the beginning. -/
structure Instruction.ExactIn (source : List Char) (instruction : Instruction) : Prop where
  spelled : Spelled instruction.span.start instruction.pieces (instruction.span.slice source)
  inside : ∀ body ∈ instruction.bodies, ∀ inner ∈ body,
    instruction.span.start < inner.span.start ∧ inner.span.stop < instruction.span.stop
  alone : Program.parse (String.ofList (instruction.span.slice source)) =
    .ok ⟨[instruction.moved (· - instruction.span.start)],
      ⟨0, instruction.span.stop - instruction.span.start⟩⟩

/-! ### Phrases -/

namespace InstructionPhrase

open Instruction

/-- A phrase denotes an instruction with the span of its text. -/
theorem span_instruction (start : Nat) (phrase : InstructionPhrase) :
    (phrase.instruction start).span = .over start phrase.text := by
  cases phrase with
  | exit => rw [instruction, span]
  | print value => rw [instruction, span]
  | declare declaration => rw [instruction, DeclarationPhrase.instruction, span, text]
  | modify change => rw [instruction, ChangePhrase.instruction, span, text]
  | branch condition thenBody elseBody => cases elseBody <;> rw [instruction, span]
  | whileLoop condition body => rw [instruction, span]
  | forLoop init condition update body => rw [instruction, span]

/-- Phrases in a row denote instructions that tile the text. -/
theorem tiles_instructions (start : Nat) (phrases : List InstructionPhrase) :
    Tiles start (instructions start phrases) (start + (textAll phrases).length) := by
  induction phrases generalizing start with
  | nil => rw [instructions, textAll]; rfl
  | cons phrase rest inductionHypothesis =>
      rw [instructions, Tiles, span_instruction, textAll, List.length_append, ← Nat.add_assoc]
      exact ⟨rfl, inductionHypothesis _⟩

theorem tiles_heads (start : Nat) (heads : List HeadPhrase) :
    Tiles start (treesFrom HeadPhrase.text HeadPhrase.instruction start heads)
      (start + (heads.flatMap HeadPhrase.text).length) := by
  rw [← instructions_heads, ← textAll_heads]
  exact tiles_instructions start _

theorem tiles_changes (start : Nat) (changes : List ChangePhrase) :
    Tiles start (treesFrom ChangePhrase.text ChangePhrase.instruction start changes)
      (start + (changes.flatMap ChangePhrase.text).length) := by
  rw [← instructions_changes, ← textAll_changes]
  exact tiles_instructions start _

/-- The text of a phrase is made of the pieces of the instruction that it denotes. -/
theorem spelled_text (start : Nat) (phrase : InstructionPhrase) :
    Spelled start (phrase.instruction start).pieces phrase.text := by
  cases phrase with
  | exit =>
      rw [instruction, pieces, text]
      exact .mark (.mark .nil)
  | print value =>
      rw [instruction, pieces, text]
      exact .mark (.cons ⟨value, rfl, rfl⟩ (.mark .nil))
  | declare declaration =>
      rw [instruction, DeclarationPhrase.instruction, pieces, text, DeclarationPhrase.text]
      exact .mark (.cons ⟨declaration.name, rfl, rfl⟩
        (.mark (.cons ⟨declaration.value, rfl, rfl⟩ (.mark .nil))))
  | modify change =>
      rw [instruction, ChangePhrase.instruction, pieces, text, ChangePhrase.text]
      exact .cons ⟨change.name, rfl, rfl⟩
        (.cons ⟨change.modification, rfl, rfl⟩ (.mark .nil))
  | branch condition thenBody elseBody =>
      cases elseBody with
      | none =>
          rw [instruction, pieces, text]
          exact .mark (.cons ⟨condition, rfl, rfl⟩
            (.mark (.cons (tiles_instructions _ thenBody) (.mark .nil))))
      | some elseBody =>
          rw [instruction, pieces, text]
          exact .mark (.cons ⟨condition, rfl, rfl⟩
            (.mark (.cons (tiles_instructions _ thenBody)
              (.mark (.mark (.mark (.cons (tiles_instructions _ elseBody) (.mark .nil))))))))
  | whileLoop condition body =>
      rw [instruction, pieces, text]
      exact .mark (.cons ⟨condition, rfl, rfl⟩
        (.mark (.cons (tiles_instructions _ body) (.mark .nil))))
  | forLoop init condition update body =>
      rw [instruction, pieces, text]
      exact .mark (.cons (tiles_heads _ init) (.mark (.cons ⟨condition, rfl, rfl⟩
        (.mark (.cons (tiles_changes _ update)
          (.mark (.cons (tiles_instructions _ body) (.mark .nil))))))))

/-- An instruction that phrases in a row denote is that of one of them, at its place in their
text. -/
theorem exists_phrase_of_mem {start : Nat} {phrases : List InstructionPhrase}
    {member : Instruction} (mem : member ∈ instructions start phrases) :
    ∃ front, ∃ phrase : InstructionPhrase, ∃ back,
      textAll phrases = front ++ (phrase.text ++ back) ∧
        member = phrase.instruction (start + front.length) := by
  induction phrases generalizing start with
  | nil =>
      rw [instructions] at mem
      cases mem
  | cons phrase rest inductionHypothesis =>
      rw [instructions] at mem
      rw [textAll]
      cases mem with
      | head => exact ⟨[], phrase, textAll rest, rfl, rfl⟩
      | tail _ later =>
          obtain ⟨front, found, back, split, rfl⟩ := inductionHypothesis later
          refine ⟨phrase.text ++ front, found, back, ?_, ?_⟩
          · rw [split, List.append_assoc]
          · rw [List.length_append, Nat.add_assoc]

/-- A body is denoted by phrases in a row that stand strictly inside a text, which starts at an
index. -/
def Encloses (start : Nat) (outer : List Char) (body : List Instruction) : Prop :=
  ∃ front phrases back, outer = front ++ (textAll phrases ++ back) ∧ front ≠ [] ∧ back ≠ [] ∧
    body = instructions (start + front.length) phrases

theorem encloses_of_text {start place : Nat} {outer : List Char} (front back : List Char)
    (phrases : List InstructionPhrase) (opened : front ≠ []) (closed : back ≠ [])
    (split : outer = front ++ (textAll phrases ++ back))
    (placed : place = start + front.length) :
    Encloses start outer (instructions place phrases) :=
  ⟨front, phrases, back, split, opened, closed, by rw [placed]⟩

/-- The text of a phrase encloses every body of the instruction that it denotes, the parts of
the head of a loop among them. -/
theorem encloses_of_body {start : Nat} {phrase : InstructionPhrase} {body : List Instruction}
    (bodyOf : body ∈ (phrase.instruction start).bodies) : Encloses start phrase.text body := by
  cases phrase with
  | exit => rw [instruction] at bodyOf; cases bodyOf
  | print value => rw [instruction] at bodyOf; cases bodyOf
  | declare declaration =>
      rw [instruction, DeclarationPhrase.instruction] at bodyOf
      cases bodyOf
  | modify change =>
      rw [instruction, ChangePhrase.instruction] at bodyOf
      cases bodyOf
  | branch condition thenBody elseBody =>
      let opening := 'j' :: (condition.text ++ ['t'])
      cases elseBody with
      | none =>
          rw [instruction, bodies, List.mem_singleton] at bodyOf
          subst bodyOf
          exact encloses_of_text opening ['z'] thenBody nofun nofun (by simp [text, opening])
            (by simp [opening]; omega)
      | some elseBody =>
          rw [instruction, bodies] at bodyOf
          rcases bodyOf with _ | ⟨_, _ | ⟨_, none⟩⟩
          · exact encloses_of_text opening ('z' :: 'e' :: 't' :: (textAll elseBody ++ ['z']))
              thenBody nofun nofun (by simp [text, opening]) (by simp [opening]; omega)
          · exact encloses_of_text (opening ++ (textAll thenBody ++ ['z', 'e', 't'])) ['z']
              elseBody nofun nofun (by simp [text, opening]) (by simp [opening]; omega)
          · cases none
  | whileLoop condition loopBody =>
      rw [instruction, bodies, List.mem_singleton] at bodyOf
      subst bodyOf
      exact encloses_of_text ('r' :: (condition.text ++ ['t'])) ['z'] loopBody nofun nofun
        (by simp [text]) (by simp; omega)
  | forLoop init condition update loopBody =>
      let closing := 't' :: (textAll loopBody ++ ['z'])
      let updating := 'k' :: (update.flatMap ChangePhrase.text ++ closing)
      let opening := 'f' :: (init.flatMap HeadPhrase.text ++ 'k' :: (condition.text ++ ['k']))
      rw [instruction, bodies] at bodyOf
      rcases bodyOf with _ | ⟨_, _ | ⟨_, _ | ⟨_, none⟩⟩⟩
      · rw [← instructions_heads]
        exact encloses_of_text ['f'] ('k' :: (condition.text ++ updating)) _ nofun nofun
          (by simp [text, textAll_heads, updating, closing]) rfl
      · rw [← instructions_changes]
        exact encloses_of_text opening closing _ nofun nofun
          (by simp [text, textAll_changes, opening, closing]) (by simp [opening]; omega)
      · exact encloses_of_text (opening ++ (update.flatMap ChangePhrase.text ++ ['t'])) ['z']
          loopBody nofun nofun (by simp [text, opening]) (by simp [opening]; omega)
      · cases none

/-- What is enclosed lies strictly between the ends. -/
theorem Encloses.inside {start : Nat} {outer : List Char} {body : List Instruction}
    {inner : Instruction} (enclosed : Encloses start outer body) (member : inner ∈ body) :
    start < inner.span.start ∧ inner.span.stop < start + outer.length := by
  obtain ⟨front, phrases, back, split, opened, closed, rfl⟩ := enclosed
  obtain ⟨before, phrase, behind, place, rfl⟩ := exists_phrase_of_mem member
  have front_pos := List.length_pos_iff.mpr opened
  have back_pos := List.length_pos_iff.mpr closed
  rw [span_instruction, Span.over, split, place]
  simp only [List.length_append]
  omega

/-- What stands in a body that phrases denote, at any depth, is denoted by a phrase in their
text. -/
theorem exists_phrase_of_within {instruction : Instruction} {body : List Instruction}
    (within : instruction.Within body) {start : Nat} {phrases : List InstructionPhrase}
    (denoted : body = instructions start phrases) :
    ∃ front, ∃ phrase : InstructionPhrase, ∃ back,
      textAll phrases = front ++ (phrase.text ++ back) ∧
        instruction = phrase.instruction (start + front.length) := by
  induction within generalizing start phrases with
  | here member =>
      subst denoted
      exact exists_phrase_of_mem member
  | inside member bodyOf _ inductionHypothesis =>
      subst denoted
      obtain ⟨front, parent, back, split, rfl⟩ := exists_phrase_of_mem member
      obtain ⟨opening, inner, closing, parentSplit, _, _, innerDenoted⟩ :=
        encloses_of_body bodyOf
      obtain ⟨before, phrase, behind, innerSplit, rfl⟩ := inductionHypothesis innerDenoted
      refine ⟨front ++ opening ++ before, phrase, behind ++ closing ++ back, ?_, ?_⟩
      · rw [split, parentSplit, innerSplit]
        simp only [List.append_assoc]
      · rw [List.length_append, List.length_append, Nat.add_assoc, Nat.add_assoc,
          Nat.add_assoc]

/-- The span of what a phrase denotes at its place in a source is exact. -/
theorem exactIn_instruction {source front back : List Char} (phrase : InstructionPhrase)
    (split : source = front ++ (phrase.text ++ back)) (spaceless : ' ' ∉ source) :
    (phrase.instruction front.length).ExactIn source := by
  have sliced : (phrase.instruction front.length).span.slice source = phrase.text := by
    rw [span_instruction, split, Span.slice_over]
  refine ⟨?_, ?_, ?_⟩
  · rw [sliced, span_instruction]
    exact spelled_text front.length phrase
  · intro body bodyOf inner member
    rw [span_instruction]
    exact (encloses_of_body bodyOf).inside member
  · have text : (ProgramPhrase.mk [phrase]).text = (String.ofList phrase.text).toList := by
      rw [ProgramPhrase.text, textAll, textAll, List.append_nil, String.toList_ofList]
    have filled : (String.ofList phrase.text).toList ≠ [] := by
      rw [String.toList_ofList]
      exact phrase.text_ne_nil
    have clean : ' ' ∉ (String.ofList phrase.text).toList := by
      rw [String.toList_ofList]
      intro found
      rw [split] at spaceless
      exact spaceless (List.mem_append_right _ (List.mem_append_left _ found))
    have atStart : (phrase.instruction front.length).moved (· - front.length) =
        phrase.instruction 0 := moved_instruction (.left front.length) phrase
    rw [sliced, Program.parse_of_phrase _ text filled clean, ProgramPhrase.program, text,
      String.toList_ofList, instructions, instructions, span_instruction]
    simp only [Span.over, atStart, Nat.add_sub_cancel_left, Nat.zero_add]

end InstructionPhrase

/-- The spans of what is read are exact.  Those of the instructions of the program tile the
source, and whatever stands in the program, at any depth, is written as its stretch of the
source, has bodies that tile the text between their marks, and is read alone as it is read
in its place. -/
theorem Program.spans_exact {source : String} {program : Program}
    (parsed : parse source = .ok program) :
    Tiles 0 program.instructions source.length ∧
      ∀ instruction : Instruction, instruction.Within program.instructions →
        instruction.ExactIn source.toList := by
  obtain ⟨_, spaceless, phrase, text, rfl⟩ := exists_phrase_of_parse parsed
  constructor
  · rw [← String.length_toList, ← text, ← Nat.zero_add phrase.text.length]
    exact InstructionPhrase.tiles_instructions 0 phrase.instructions
  · intro instruction within
    obtain ⟨front, found, back, split, rfl⟩ :=
      InstructionPhrase.exists_phrase_of_within within rfl
    rw [Nat.zero_add]
    exact InstructionPhrase.exactIn_instruction found (text.symm.trans split) spaceless

/-- A loop with a body of two instructions and an exit behind it. -/
theorem Program.spans_of_loop :
    (parse "rXlti3ithXlXpplzxl").toOption.map (fun program =>
        program.instructions.map fun instruction =>
          (instruction.span, instruction.bodies.map (List.map Instruction.span))) =
      some [(⟨0, 16⟩, [[⟨8, 11⟩, ⟨11, 15⟩]]), (⟨16, 18⟩, [])] ∧
    ∃ program, parse "rXlti3ithXlXpplzxl" = .ok program ∧ Tiles 0 program.instructions 18 ∧
      ∀ instruction : Instruction, instruction.Within program.instructions →
        instruction.ExactIn "rXlti3ithXlXpplzxl".toList := by
  refine ⟨by decide +kernel, ?_⟩
  obtain ⟨program, parsed⟩ := exists_parse_of_toBool "rXlti3ithXlXpplzxl" (by decide +kernel)
  exact ⟨program, parsed, spans_exact parsed⟩

end Letterline
