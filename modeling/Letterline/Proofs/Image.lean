/-
Module: Letterline.Proofs.Image
Purpose: Apart from spans, the programs that are read are exactly the well-formed ones.
Trusted boundary: none
Main exports:
  ProgramPhrase.wellFormed_program, Instruction.exists_phrase,
  Program.exists_source_iff_wellFormed
-/
import Mathlib
import Letterline.Proofs.Numeral
import Letterline.Proofs.ParserComplete
import Letterline.Proofs.WellFormed

namespace Letterline

/-!
A derivation denotes a well-formed program.  In turn a well-formed program is denoted by
a derivation without a space in its text, and such a text is read as what its derivation
denotes.
-/

/-! ### What is denoted is well formed -/

theorem NamePhrase.isName_name (phrase : NamePhrase) : IsName phrase.name := by
  refine ⟨phrase.first.toLower, phrase.rest.map Char.toLower, ?_, ?_, ?_⟩
  · rw [name, String.toList_ofList, text, List.map_cons]
  · rw [Char.isLower_toLower_eq_isAlpha, Char.isAlpha, phrase.first_isUpper, Bool.true_or]
  · rw [List.forall_mem_map]
    intro c member
    rw [Char.isLower_toLower_eq_isAlpha]
    by_cases upper : c.isUpper
    · exact Or.inl (by rw [Char.isAlpha, upper, Bool.true_or])
    · rw [Char.toLower_eq_of_not_isUpper upper]
      have nameChar := phrase.rest_isNameChar c member
      rw [Cursor.isNameChar, Bool.or_eq_true] at nameChar
      exact Or.inr (nameChar.resolve_left upper)

theorem LiteralPhrase.wellFormed_scalar (phrase : LiteralPhrase) : phrase.scalar.WellFormed := by
  rcases phrase with ⟨kind, contents, scalar, delimited, denotes⟩
  cases kind with
  | integer =>
      obtain ⟨value, _, rfl⟩ := Option.map_eq_some_iff.mp denotes
      trivial
  | double =>
      obtain ⟨value, read, rfl⟩ := Option.map_eq_some_iff.mp denotes
      exact ⟨_, read⟩
  | string =>
      cases denotes
      have inString : Delimited 's' (String.ofList contents).toList := by
        rwa [String.toList_ofList]
      exact ⟨avoids_unescapeString inString (Or.inl rfl),
        avoids_unescapeString inString (Or.inr (Or.inl rfl)),
        avoids_unescapeString inString (Or.inr (Or.inr rfl))⟩
  | character =>
      obtain ⟨value, _, rfl⟩ := Option.map_eq_some_iff.mp denotes
      trivial
  | boolean =>
      obtain ⟨value, _, rfl⟩ := Option.map_eq_some_iff.mp denotes
      trivial

theorem OperandPhrase.wellFormed_operand (phrase : OperandPhrase) :
    phrase.operand.WellFormed := by
  cases phrase with
  | «variable» name => exact name.isName_name
  | input => trivial
  | literal phrase => exact phrase.wellFormed_scalar

theorem Arithmetic.operator_ne_none (arithmetic : Arithmetic) :
    arithmetic.operator ≠ .none := by
  cases arithmetic <;> nofun

theorem ValuePhrase.wellFormed_value (phrase : ValuePhrase) : phrase.value.WellFormed where
  unevaluated := rfl
  joined := by
    refine ⟨_, _, rfl, rfl, ?_⟩
    rw [linkParts, List.forall_mem_map]
    intro link _
    exact link.1.operator_ne_none
  operands := by
    refine List.forall_mem_cons.mpr ⟨phrase.first.wellFormed_operand, ?_⟩
    rw [linkParts, List.forall_mem_map]
    intro link _
    exact link.2.wellFormed_operand

theorem ComparisonPhrase.wellFormed_condition (phrase : ComparisonPhrase) :
    phrase.condition.WellFormedComparison :=
  ⟨phrase.left.wellFormed_value, phrase.right.wellFormed_value⟩

theorem ConditionPhrase.wellFormed_condition (phrase : ConditionPhrase) :
    phrase.condition.WellFormed := by
  rcases phrase with ⟨first, rest⟩
  cases rest with
  | nil => exact first.wellFormed_condition
  | cons link links =>
      refine ⟨first.wellFormed_condition, nofun, ?_⟩
      rw [linkMembers, List.forall_mem_map]
      intro link _
      exact link.2.wellFormed_condition

theorem ModificationPhrase.wellFormed_modification (phrase : ModificationPhrase) :
    phrase.modification.WellFormed := by
  cases phrase with
  | increment => trivial
  | decrement => trivial
  | compound operator value => exact ⟨operator.operator_ne_none, value.wellFormed_value⟩
  | assign value => exact value.wellFormed_value

namespace InstructionPhrase

open Instruction (AllWellFormed)

theorem wellFormed_declaration (start : Nat) (phrase : DeclarationPhrase) :
    (phrase.instruction start).WellFormed := by
  rw [DeclarationPhrase.instruction, Instruction.WellFormed]
  exact ⟨phrase.name.isName_name, phrase.value.wellFormed_value⟩

theorem wellFormed_change (start : Nat) (phrase : ChangePhrase) :
    (phrase.instruction start).WellFormed := by
  rw [ChangePhrase.instruction, Instruction.WellFormed]
  exact ⟨phrase.name.isName_name, phrase.modification.wellFormed_modification⟩

/-- What holds of the trees of phrases wherever they start holds of the trees in a row. -/
theorem forall_mem_treesFrom {α : Type} {text : α → List Char} {tree : Nat → α → Instruction}
    (Holds : Instruction → Prop) (holds : ∀ start phrase, Holds (tree start phrase))
    (phrases : List α) (start : Nat) :
    ∀ instruction ∈ treesFrom text tree start phrases, Holds instruction := by
  induction phrases generalizing start with
  | nil => nofun
  | cons phrase rest inductionHypothesis =>
      rw [treesFrom]
      exact List.forall_mem_cons.mpr ⟨holds start phrase, inductionHypothesis _⟩

theorem wellFormed_head (start : Nat) (phrase : HeadPhrase) :
    (phrase.instruction start).WellFormed := by
  cases phrase with
  | declare declaration => exact wellFormed_declaration start declaration
  | modify change => exact wellFormed_change start change

theorem kind_head (start : Nat) (phrase : HeadPhrase) :
    (phrase.instruction start).kind = .declare ∨ (phrase.instruction start).kind = .modify := by
  cases phrase with
  | declare declaration => exact Or.inl rfl
  | modify change => exact Or.inr rfl

theorem allWellFormed_iff (instructions : List Instruction) :
    AllWellFormed instructions ↔ ∀ instruction ∈ instructions, instruction.WellFormed := by
  induction instructions with
  | nil => simp [AllWellFormed]
  | cons instruction rest inductionHypothesis =>
      rw [AllWellFormed, inductionHypothesis, List.forall_mem_cons]

mutual

theorem wellFormed_instruction : ∀ (start : Nat) (phrase : InstructionPhrase),
    (phrase.instruction start).WellFormed
  | start, .exit => by rw [instruction, Instruction.WellFormed]; trivial
  | start, .print value => by
      rw [instruction, Instruction.WellFormed]
      exact value.wellFormed_value
  | start, .declare declaration => wellFormed_declaration start declaration
  | start, .modify change => wellFormed_change start change
  | start, .branch condition thenBody none => by
      rw [instruction, Instruction.WellFormed]
      exact ⟨condition.wellFormed_condition, allWellFormed_instructions _ thenBody⟩
  | start, .branch condition thenBody (some elseBody) => by
      rw [instruction, Instruction.WellFormed]
      exact ⟨condition.wellFormed_condition, allWellFormed_instructions _ thenBody,
        allWellFormed_instructions _ elseBody⟩
  | start, .whileLoop condition body => by
      rw [instruction, Instruction.WellFormed]
      exact ⟨condition.wellFormed_condition, allWellFormed_instructions _ body⟩
  | start, .forLoop init condition update body => by
      rw [instruction, Instruction.WellFormed, allWellFormed_iff, allWellFormed_iff]
      refine ⟨⟨?_, ?_⟩, condition.wellFormed_condition, ⟨?_, ?_⟩,
        allWellFormed_instructions _ body⟩
      · exact forall_mem_treesFrom Instruction.WellFormed wellFormed_head init _
      · exact forall_mem_treesFrom (fun tree => tree.kind = .declare ∨ tree.kind = .modify)
          kind_head init _
      · exact forall_mem_treesFrom Instruction.WellFormed wellFormed_change update _
      · exact forall_mem_treesFrom (fun tree => tree.kind = .modify) (fun _ _ => rfl) update _

theorem allWellFormed_instructions : ∀ (start : Nat) (phrases : List InstructionPhrase),
    AllWellFormed (instructions start phrases)
  | _, [] => trivial
  | start, phrase :: rest => by
      rw [instructions, AllWellFormed]
      exact ⟨wellFormed_instruction start phrase, allWellFormed_instructions _ rest⟩

end

end InstructionPhrase

theorem ProgramPhrase.wellFormed_program (phrase : ProgramPhrase) (filled : phrase.text ≠ []) :
    phrase.program.WellFormed where
  filled := by
    intro empty
    cases shape : phrase.instructions with
    | nil => exact filled (by rw [text, shape]; rfl)
    | cons first rest => simp [program, shape, InstructionPhrase.instructions] at empty
  instructions := InstructionPhrase.allWellFormed_instructions 0 phrase.instructions

/-! ### What is well formed is denoted -/

theorem not_isAlpha_of_isDigit {c : Char} (digit : c.isDigit) : ¬c.isAlpha := by
  rw [Char.isDigit_iff_toNat] at digit
  simp [Char.isAlpha, Char.isUpper, Char.isLower, UInt32.le_iff_toNat_le] at digit ⊢
  omega

/-- A character of a name is read back from the one that stands for it in a source. -/
theorem toUpper_of_nameChar {c : Char} (fits : c.isLower ∨ c.isDigit) :
    Cursor.isNameChar c.toUpper ∧ c.toUpper.toLower = c := by
  rw [Char.toLower_toUpper_eq_toLower, Cursor.isNameChar, Char.isUpper_toUpper_eq_isAlpha,
    Char.isAlpha, Bool.or_eq_true]
  rcases fits with lower | digit
  · refine ⟨Or.inl (by rw [lower, Bool.or_true]), ?_⟩
    exact Char.toLower_eq_of_not_isUpper (Char.not_isUpper_of_isLower lower)
  · have plain := not_isAlpha_of_isDigit digit
    rw [Char.isAlpha, Bool.or_eq_true, not_or] at plain
    rw [Char.toUpper_eq_of_not_isLower plain.2, Char.toLower_eq_of_not_isUpper plain.1]
    exact ⟨Or.inr digit, rfl⟩

theorem NamePhrase.exists_of_isName {name : String} (isName : IsName name) :
    ∃ phrase : NamePhrase, phrase.name = name := by
  rcases isName with ⟨first, rest, letters, lower, others⟩
  have upper : first.toUpper.isUpper := by
    rw [Char.isUpper_toUpper_eq_isAlpha, Char.isAlpha, lower, Bool.or_true]
  have nameChar : ∀ c ∈ rest.map Char.toUpper, Cursor.isNameChar c := by
    rw [List.forall_mem_map]
    exact fun c member => (toUpper_of_nameChar (others c member)).1
  have readBack : rest.map (Char.toLower ∘ Char.toUpper) = rest := by
    conv_rhs => rw [← List.map_id rest]
    exact List.map_congr_left fun c member => (toUpper_of_nameChar (others c member)).2
  refine ⟨⟨first.toUpper, rest.map Char.toUpper, upper, nameChar⟩, ?_⟩
  rw [NamePhrase.name, text, List.map_cons, List.map_map, readBack,
    (toUpper_of_nameChar (Or.inl lower)).2, ← letters, String.ofList_toList]

theorem NamePhrase.space_not_mem (phrase : NamePhrase) : ' ' ∉ phrase.text :=
  fun member => nomatch phrase.isNameChar_of_mem ' ' member

/-- Contents that a kind of literal can have give a phrase, without a space if they have
none. -/
theorem LiteralPhrase.exists_of_contents {scalar : Scalar} (kind : LiteralKind)
    (contents : String) (delimited : Delimited kind.mark contents.toList)
    (denotes : kind.read? contents = some scalar) (spaceless : ' ' ∉ contents.toList) :
    ∃ phrase : LiteralPhrase, phrase.scalar = scalar ∧ ' ' ∉ phrase.text := by
  have denotesList : kind.read? (String.ofList contents.toList) = some scalar := by
    rwa [String.ofList_toList]
  refine ⟨⟨kind, contents.toList, scalar, delimited, denotesList⟩, rfl, ?_⟩
  have notMark : ' ' ≠ kind.mark := by cases kind <;> decide
  simp [LiteralPhrase.text, spaceless, notMark]

/-- A numeral can stand between the delimiters of numbers. -/
theorem delimited_of_isNumeralChar {kind : LiteralKind} {contents : List Char}
    (number : kind = .integer ∨ kind = .double) (numeral : ∀ c ∈ contents, isNumeralChar c) :
    Delimited kind.mark contents ∧ ' ' ∉ contents := by
  refine ⟨Delimited.of_plain fun c member => ⟨?_, ?_⟩, fun member => nomatch numeral _ member⟩
  · rintro rfl
    rcases number with rfl | rfl <;> cases numeral _ member
  · rintro rfl
    cases numeral _ member

theorem LiteralPhrase.exists_of_wellFormed {scalar : Scalar} (wellFormed : scalar.WellFormed) :
    ∃ phrase : LiteralPhrase, phrase.scalar = scalar ∧ ' ' ∉ phrase.text := by
  cases scalar with
  | int value =>
      obtain ⟨delimited, spaceless⟩ := delimited_of_isNumeralChar (Or.inl rfl)
        (isNumeralChar_of_signedDigits? (signedDigits?_toString value.toInt))
      refine exists_of_contents .integer _ delimited ?_ spaceless
      rw [LiteralKind.read?, Scalar.readInt?_toString, Option.map_some]
  | double value =>
      rcases wellFormed with ⟨text, read⟩
      obtain ⟨numeral, readNumeral, _⟩ := Option.map_eq_some_iff.mp read
      obtain ⟨delimited, spaceless⟩ := delimited_of_isNumeralChar (Or.inr rfl)
        (Numeral.isNumeralChar_of_ofText? readNumeral)
      refine exists_of_contents .double text delimited ?_ spaceless
      rw [LiteralKind.read?, read, Option.map_some]
  | string text =>
      rcases wellFormed with ⟨newline, space, delimiter⟩
      refine exists_of_contents .string (escapeString text) (delimited_escapeString delimiter) ?_
        (space_not_mem_escapeString text)
      rw [LiteralKind.read?, unescapeString_escapeString newline space delimiter]
  | char value =>
      refine exists_of_contents .character (escapeChar value) (delimited_escapeChar value) ?_
        (space_not_mem_escapeChar value)
      rw [LiteralKind.read?, unescapeChar?_escapeChar, Option.map_some]
  | bool value =>
      cases value with
      | true =>
          refine exists_of_contents .boolean "1" (.of_plain ?_) ?_ (by simp)
          · simp [LiteralKind.mark, Cursor.escapeLetter]
          · have lowered : Scalar.lowered "1" = "1" := String.toList_inj.mp (String.toList_map ..)
            rw [LiteralKind.read?, Scalar.readBool?, lowered]
            rfl
      | false =>
          refine exists_of_contents .boolean "0" (.of_plain ?_) ?_ (by simp)
          · simp [LiteralKind.mark, Cursor.escapeLetter]
          · have lowered : Scalar.lowered "0" = "0" := String.toList_inj.mp (String.toList_map ..)
            rw [LiteralKind.read?, Scalar.readBool?, lowered]
            rfl

theorem OperandPhrase.exists_of_wellFormed {operand : Operand}
    (wellFormed : operand.WellFormed) :
    ∃ phrase : OperandPhrase, phrase.operand = operand ∧ ' ' ∉ phrase.text := by
  cases operand with
  | literal scalar =>
      obtain ⟨phrase, rfl, spaceless⟩ := LiteralPhrase.exists_of_wellFormed wellFormed
      exact ⟨.literal phrase, rfl, spaceless⟩
  | «variable» name =>
      obtain ⟨phrase, rfl⟩ := NamePhrase.exists_of_isName wellFormed
      exact ⟨.variable phrase, rfl, phrase.space_not_mem⟩
  | input => exact ⟨.input, rfl, by decide⟩

/-- What every member of a list comes from makes up what the list comes from. -/
theorem exists_map_eq {α β : Type} {f : β → α} {Holds : β → Prop} {list : List α}
    (each : ∀ a ∈ list, ∃ b, f b = a ∧ Holds b) :
    ∃ sources : List β, sources.map f = list ∧ ∀ b ∈ sources, Holds b := by
  induction list with
  | nil => exact ⟨[], rfl, nofun⟩
  | cons a rest inductionHypothesis =>
      rw [List.forall_mem_cons] at each
      rcases each with ⟨⟨b, rfl, holds⟩, others⟩
      obtain ⟨sources, rfl, all⟩ := inductionHypothesis others
      exact ⟨b :: sources, rfl, List.forall_mem_cons.mpr ⟨holds, all⟩⟩

theorem Arithmetic.exists_operator {operator : Operator} (joins : operator ≠ .none) :
    ∃ arithmetic : Arithmetic, arithmetic.operator = operator := by
  cases operator with
  | none => exact absurd rfl joins
  | plus => exact ⟨.plus, rfl⟩
  | minus => exact ⟨.minus, rfl⟩
  | times => exact ⟨.times, rfl⟩
  | divide => exact ⟨.divide, rfl⟩
  | modulo => exact ⟨.modulo, rfl⟩

theorem Arithmetic.space_ne_letter (arithmetic : Arithmetic) : ' ' ≠ arithmetic.letter := by
  cases arithmetic <;> decide

theorem ValuePhrase.exists_of_wellFormed {value : Value} (wellFormed : value.WellFormed) :
    ∃ phrase : ValuePhrase, phrase.value = value ∧ ' ' ∉ phrase.text := by
  rcases value with ⟨parts, evaluated⟩
  obtain ⟨unevaluated, ⟨⟨operator, operand⟩, rest, joined, unjoined, operators⟩, operands⟩ :=
    wellFormed
  cases unevaluated
  cases joined
  cases unjoined
  rw [List.forall_mem_cons] at operands
  obtain ⟨first, rfl, firstSpaceless⟩ := OperandPhrase.exists_of_wellFormed operands.1
  have each : ∀ part ∈ rest, ∃ link : Arithmetic × OperandPhrase,
      Part.mk link.1.operator link.2.operand = part ∧
        ' ' ∉ link.1.letter :: link.2.text := by
    intro part member
    obtain ⟨arithmetic, operator⟩ := Arithmetic.exists_operator (operators part member)
    obtain ⟨phrase, operand, spaceless⟩ :=
      OperandPhrase.exists_of_wellFormed (operands.2 part member)
    refine ⟨(arithmetic, phrase), by rw [operator, operand], ?_⟩
    rw [List.mem_cons, not_or]
    exact ⟨arithmetic.space_ne_letter, spaceless⟩
  obtain ⟨links, rfl, spaceless⟩ := exists_map_eq each
  refine ⟨⟨first, links⟩, rfl, ?_⟩
  rw [text, List.mem_append, not_or, linksText, List.mem_flatMap]
  refine ⟨firstSpaceless, ?_⟩
  intro evidence
  rcases evidence with ⟨link, member, there⟩
  exact spaceless link member there

theorem ComparisonPhrase.exists_of_wellFormed {condition : Condition}
    (wellFormed : condition.WellFormedComparison) :
    ∃ phrase : ComparisonPhrase, phrase.condition = condition ∧ ' ' ∉ phrase.text := by
  cases condition with
  | compare left comparator right =>
      obtain ⟨left, rfl, leftSpaceless⟩ := ValuePhrase.exists_of_wellFormed wellFormed.1
      obtain ⟨right, rfl, rightSpaceless⟩ := ValuePhrase.exists_of_wellFormed wellFormed.2
      refine ⟨⟨left, comparator, right⟩, rfl, ?_⟩
      have spelling : ' ' ∉ comparator.spelling := by cases comparator <;> decide
      simp [text, leftSpaceless, spelling, rightSpaceless]
  | chain head rest => cases wellFormed

theorem ConditionPhrase.exists_of_wellFormed {condition : Condition}
    (wellFormed : condition.WellFormed) :
    ∃ phrase : ConditionPhrase, phrase.condition = condition ∧ ' ' ∉ phrase.text := by
  cases condition with
  | compare left comparator right =>
      have comparison : (Condition.compare left comparator right).WellFormedComparison :=
        wellFormed
      obtain ⟨phrase, same, spaceless⟩ := ComparisonPhrase.exists_of_wellFormed comparison
      exact ⟨⟨phrase, []⟩, same, by simpa [text, linksText] using spaceless⟩
  | chain head rest =>
      rcases wellFormed with ⟨headFits, filled, restFits⟩
      obtain ⟨first, rfl, firstSpaceless⟩ := ComparisonPhrase.exists_of_wellFormed headFits
      have each : ∀ member ∈ rest, ∃ link : Connective × ComparisonPhrase,
          (link.1, link.2.condition) = member ∧ ' ' ∉ link.1.letter :: link.2.text := by
        rintro ⟨connective, condition⟩ member
        obtain ⟨phrase, same, spaceless⟩ :=
          ComparisonPhrase.exists_of_wellFormed (restFits _ member)
        refine ⟨(connective, phrase), by rw [same], ?_⟩
        have letter : ' ' ≠ connective.letter := by cases connective <;> decide
        rw [List.mem_cons, not_or]
        exact ⟨letter, spaceless⟩
      obtain ⟨links, rfl, spaceless⟩ := exists_map_eq each
      refine ⟨⟨first, links⟩, ?_, ?_⟩
      · cases links with
        | nil => exact absurd rfl filled
        | cons link links => rfl
      · rw [text, List.mem_append, not_or, linksText, List.mem_flatMap]
        refine ⟨firstSpaceless, ?_⟩
        intro evidence
        rcases evidence with ⟨link, member, there⟩
        exact spaceless link member there

theorem ModificationPhrase.exists_of_wellFormed {modification : Modification}
    (wellFormed : modification.WellFormed) :
    ∃ phrase : ModificationPhrase, phrase.modification = modification ∧ ' ' ∉ phrase.text := by
  cases modification with
  | increment => exact ⟨.increment, rfl, by decide⟩
  | decrement => exact ⟨.decrement, rfl, by decide⟩
  | compound operator value =>
      obtain ⟨arithmetic, rfl⟩ := Arithmetic.exists_operator wellFormed.1
      obtain ⟨phrase, rfl, spaceless⟩ := ValuePhrase.exists_of_wellFormed wellFormed.2
      refine ⟨.compound arithmetic phrase, rfl, ?_⟩
      simp [text, arithmetic.space_ne_letter, spaceless]
  | assign value =>
      obtain ⟨phrase, rfl, spaceless⟩ := ValuePhrase.exists_of_wellFormed wellFormed
      exact ⟨.assign phrase, rfl, by simp [text, spaceless]⟩

/-! ### Instructions -/

namespace Instruction

open InstructionPhrase

/-- A phrase without a space denotes an instruction, apart from the spans, wherever it
starts. -/
structure DenotedBy (instruction : Instruction) (phrase : InstructionPhrase) : Prop where
  spaceless : ' ' ∉ phrase.text
  same : ∀ start, (phrase.instruction start).withoutSpans = instruction.withoutSpans

/-- Phrases without a space denote instructions, apart from the spans, wherever they
start. -/
structure AllDenotedBy (read : List Instruction) (phrases : List InstructionPhrase) : Prop where
  spaceless : ' ' ∉ textAll phrases
  same : ∀ start, withoutSpansAll (instructions start phrases) = withoutSpansAll read

theorem AllDenotedBy.nil : AllDenotedBy [] [] :=
  ⟨nofun, fun _ => rfl⟩

theorem AllDenotedBy.cons {instruction : Instruction} {rest : List Instruction}
    {phrase : InstructionPhrase} {phrases : List InstructionPhrase}
    (first : instruction.DenotedBy phrase) (others : AllDenotedBy rest phrases) :
    AllDenotedBy (instruction :: rest) (phrase :: phrases) where
  spaceless := by
    rw [textAll, List.mem_append, not_or]
    exact ⟨first.spaceless, others.spaceless⟩
  same := by
    intro start
    rw [instructions, withoutSpansAll, withoutSpansAll, first.same, others.same]

theorem map_kind_instructions (start : Nat) (phrases : List InstructionPhrase) :
    (instructions start phrases).map kind = phrases.map InstructionPhrase.kind := by
  induction phrases generalizing start with
  | nil => rfl
  | cons phrase rest inductionHypothesis =>
      rw [instructions, List.map_cons, List.map_cons, inductionHypothesis, kind_instruction]

/-- Phrases are of the kinds of the instructions that they denote. -/
theorem AllDenotedBy.forall_kind (Holds : InstructionKind → Prop) {read : List Instruction}
    {phrases : List InstructionPhrase} (denoted : AllDenotedBy read phrases)
    (holds : ∀ instruction ∈ read, Holds instruction.kind) :
    ∀ phrase ∈ phrases, Holds phrase.kind := by
  have kinds : phrases.map InstructionPhrase.kind = read.map kind := by
    rw [← map_kind_instructions 0, ← map_kind_withoutSpansAll, denoted.same,
      map_kind_withoutSpansAll]
  rw [← List.forall_mem_map (f := InstructionPhrase.kind), kinds, List.forall_mem_map]
  exact holds

theorem AllDenotedBy.allows_initialization {init : List Instruction}
    {phrases : List InstructionPhrase} (denoted : AllDenotedBy init phrases)
    (kinds : ∀ instruction ∈ init, instruction.kind = .declare ∨ instruction.kind = .modify) :
    ∀ phrase ∈ phrases, Segment.initialization.allows phrase.kind := by
  refine denoted.forall_kind (Segment.initialization.allows ·) fun instruction member => ?_
  rw [Segment.allows, Bool.or_eq_true, beq_iff_eq, beq_iff_eq]
  exact kinds instruction member

theorem AllDenotedBy.allows_update {update : List Instruction}
    {phrases : List InstructionPhrase} (denoted : AllDenotedBy update phrases)
    (kinds : ∀ instruction ∈ update, instruction.kind = .modify) :
    ∀ phrase ∈ phrases, Segment.update.allows phrase.kind := by
  refine denoted.forall_kind (Segment.update.allows ·) fun instruction member => ?_
  rw [Segment.allows, beq_iff_eq]
  exact kinds instruction member

mutual

/-- A well-formed instruction is denoted by a phrase without a space. -/
theorem exists_phrase : ∀ instruction : Instruction, instruction.WellFormed →
    ∃ phrase, instruction.DenotedBy phrase
  | .exit span, _ => by
      refine ⟨.exit, by decide, fun start => ?_⟩
      rw [InstructionPhrase.instruction, withoutSpans, withoutSpans]
  | .print value span, fits => by
      rw [WellFormed] at fits
      obtain ⟨phrase, rfl, spaceless⟩ := ValuePhrase.exists_of_wellFormed fits
      refine ⟨.print phrase, by simp [text, spaceless], fun start => ?_⟩
      rw [InstructionPhrase.instruction, withoutSpans, withoutSpans]
  | .declare name value span, fits => by
      rw [WellFormed] at fits
      obtain ⟨phrase, rfl⟩ := NamePhrase.exists_of_isName fits.1
      obtain ⟨value, rfl, spaceless⟩ := ValuePhrase.exists_of_wellFormed fits.2
      refine ⟨.declare ⟨phrase, value⟩, ?_, fun start => ?_⟩
      · simp [text, DeclarationPhrase.text, phrase.space_not_mem, spaceless]
      · rw [InstructionPhrase.instruction, DeclarationPhrase.instruction, withoutSpans,
          withoutSpans]
  | .modify name modification span, fits => by
      rw [WellFormed] at fits
      obtain ⟨phrase, rfl⟩ := NamePhrase.exists_of_isName fits.1
      obtain ⟨modification, rfl, spaceless⟩ := ModificationPhrase.exists_of_wellFormed fits.2
      refine ⟨.modify ⟨phrase, modification⟩, ?_, fun start => ?_⟩
      · simp [text, ChangePhrase.text, phrase.space_not_mem, spaceless]
      · rw [InstructionPhrase.instruction, ChangePhrase.instruction, withoutSpans, withoutSpans]
  | .branch condition thenBody none span, fits => by
      rw [WellFormed] at fits
      obtain ⟨phrase, rfl, spaceless⟩ := ConditionPhrase.exists_of_wellFormed fits.1
      obtain ⟨phrases, denoted⟩ := exists_phrases thenBody fits.2
      refine ⟨.branch phrase phrases none, ?_, fun start => ?_⟩
      · simp [text, spaceless, denoted.spaceless]
      · rw [InstructionPhrase.instruction, withoutSpans, withoutSpans, denoted.same]
  | .branch condition thenBody (some elseBody) span, fits => by
      rw [WellFormed] at fits
      obtain ⟨phrase, rfl, spaceless⟩ := ConditionPhrase.exists_of_wellFormed fits.1
      obtain ⟨thenPhrases, inThen⟩ := exists_phrases thenBody fits.2.1
      obtain ⟨elsePhrases, inElse⟩ := exists_phrases elseBody fits.2.2
      refine ⟨.branch phrase thenPhrases (some elsePhrases), ?_, fun start => ?_⟩
      · simp [text, spaceless, inThen.spaceless, inElse.spaceless]
      · rw [InstructionPhrase.instruction, withoutSpans, withoutSpans, inThen.same,
          inElse.same]
  | .whileLoop condition body span, fits => by
      rw [WellFormed] at fits
      obtain ⟨phrase, rfl, spaceless⟩ := ConditionPhrase.exists_of_wellFormed fits.1
      obtain ⟨phrases, denoted⟩ := exists_phrases body fits.2
      refine ⟨.whileLoop phrase phrases, ?_, fun start => ?_⟩
      · simp [text, spaceless, denoted.spaceless]
      · rw [InstructionPhrase.instruction, withoutSpans, withoutSpans, denoted.same]
  | .forLoop init condition update body span, fits => by
      rw [WellFormed] at fits
      rcases fits with ⟨⟨initFits, initKinds⟩, conditionFits, ⟨updateFits, updateKinds⟩, bodyFits⟩
      obtain ⟨_, inInit⟩ := exists_phrases init initFits
      obtain ⟨heads, rfl⟩ := exists_heads (inInit.allows_initialization initKinds)
      obtain ⟨phrase, rfl, spaceless⟩ := ConditionPhrase.exists_of_wellFormed conditionFits
      obtain ⟨_, inUpdate⟩ := exists_phrases update updateFits
      obtain ⟨changes, rfl⟩ := exists_changes (inUpdate.allows_update updateKinds)
      obtain ⟨phrases, inBody⟩ := exists_phrases body bodyFits
      refine ⟨.forLoop heads phrase changes phrases, ?_, fun start => ?_⟩
      · rw [text, ← textAll_heads, ← textAll_changes]
        simp [inInit.spaceless, spaceless, inUpdate.spaceless, inBody.spaceless]
      · rw [InstructionPhrase.instruction, withoutSpans, withoutSpans, ← instructions_heads,
          ← instructions_changes, inInit.same, inUpdate.same, inBody.same]

/-- Well-formed instructions are denoted by phrases without a space. -/
theorem exists_phrases : ∀ read : List Instruction, AllWellFormed read →
    ∃ phrases, AllDenotedBy read phrases
  | [], _ => ⟨[], .nil⟩
  | instruction :: rest, fits => by
      rw [AllWellFormed] at fits
      obtain ⟨phrase, first⟩ := exists_phrase instruction fits.1
      obtain ⟨phrases, others⟩ := exists_phrases rest fits.2
      exact ⟨phrase :: phrases, .cons first others⟩

end

end Instruction

/-- A program is what some source is read as, apart from the spans, if and only if it is
well formed. -/
theorem Program.exists_source_iff_wellFormed (program : Program) :
    (∃ source read, Program.parse source = .ok read ∧
        read.withoutSpans = program.withoutSpans) ↔ program.WellFormed := by
  constructor
  · intro evidence
    rcases evidence with ⟨source, read, parsed, same⟩
    obtain ⟨filled, _, phrase, text, rfl⟩ := Program.exists_phrase_of_parse parsed
    rw [← Program.wellFormed_withoutSpans, ← same, Program.wellFormed_withoutSpans]
    exact phrase.wellFormed_program (by rwa [text])
  · intro evidence
    rcases evidence with ⟨filled, fits⟩
    obtain ⟨phrases, denoted⟩ := Instruction.exists_phrases program.instructions fits
    have phrasesFilled : InstructionPhrase.textAll phrases ≠ [] := by
      have lengths := congrArg List.length (denoted.same 0)
      rw [Instruction.withoutSpansAll_eq_map, Instruction.withoutSpansAll_eq_map,
        List.length_map, List.length_map] at lengths
      cases phrases with
      | nil => exact absurd (List.length_eq_zero_iff.mp lengths.symm) filled
      | cons first rest => simp [InstructionPhrase.textAll, first.text_ne_nil]
    refine ⟨String.ofList (ProgramPhrase.mk phrases).text, (ProgramPhrase.mk phrases).program,
      ?_, ?_⟩
    · refine Program.parse_of_phrase _ String.toList_ofList.symm ?_ ?_
      · rwa [String.toList_ofList]
      · rw [String.toList_ofList]
        exact denoted.spaceless
    · rw [Program.withoutSpans, ProgramPhrase.program, denoted.same]
      rfl

end Letterline
