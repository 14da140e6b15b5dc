/-
Module: Letterline.Proofs.Readability
Purpose: Unique readability: a text is derived in one way at most.
Trusted boundary: none
Main exports:
  Ends, Readable, Readable.list, InstructionPhrase.readable_text, ProgramPhrase.text_injective
-/
import Letterline.Proofs.Grammar

namespace Letterline

/-!
There is nothing between the tokens of a source, so a phrase ends where the next
character cannot belong to it any more.  What may not come behind a phrase is said by a
set of characters for each symbol of the grammar: with such a text behind it, the text of
a phrase determines the phrase.
-/

/-- A text does not go on with certain characters. -/
def Ends (more : Char → Bool) (tail : List Char) : Prop :=
  ∀ c, tail.head? = some c → more c = false

/-- From a text with a phrase in front, the phrase can be read off if the text behind it
does not go on with certain characters. -/
def Readable {α : Type} (text : α → List Char) (more : Char → Bool) : Prop :=
  ∀ first second before after, Ends more before → Ends more after →
    text first ++ before = text second ++ after → first = second ∧ before = after

section

variable {more starts : Char → Bool} {tail : List Char} {c : Char}

@[simp] theorem ends_nil : Ends more [] :=
  nofun

@[simp] theorem ends_cons : Ends more (c :: tail) ↔ more c = false := by
  simp [Ends]

theorem Ends.mono {wider : Char → Bool} (ends : Ends wider tail)
    (narrower : ∀ c, more c → wider c) : Ends more tail := by
  intro c here
  rw [← Bool.not_eq_true]
  intro moreHere
  have widerHere := narrower c moreHere
  rw [ends c here] at widerHere
  cases widerHere

variable {α : Type} {text : α → List Char}

/-- Behind phrases in a row comes the start of another one, or what comes behind all. -/
theorem ends_flatMap (started : ∀ phrase, ∃ c rest, text phrase = c :: rest ∧ starts c)
    (apart : ∀ c, starts c → more c = false) (phrases : List α)
    (ends : Ends (fun c => more c || starts c) tail) :
    Ends more (phrases.flatMap text ++ tail) := by
  cases phrases with
  | nil => exact ends.mono fun c moreHere => by rw [moreHere, Bool.true_or]
  | cons phrase rest =>
      obtain ⟨c, letters, shape, startsHere⟩ := started phrase
      simp [shape, apart c startsHere]

/-- Phrases in a row can be read off one after the other if each can, and if they start
with characters that none of them can go on with. -/
theorem Readable.list (readable : Readable text more)
    (started : ∀ phrase, ∃ c rest, text phrase = c :: rest ∧ starts c)
    (apart : ∀ c, starts c → more c = false) :
    Readable (List.flatMap text) fun c => more c || starts c := by
  intro first
  induction first with
  | nil =>
      intro second before after beforeEnds afterEnds same
      cases second with
      | nil => exact ⟨rfl, same⟩
      | cons phrase rest =>
          obtain ⟨c, letters, shape, startsHere⟩ := started phrase
          rw [List.flatMap_nil, List.nil_append, List.flatMap_cons, shape] at same
          rw [same] at beforeEnds
          simp [startsHere] at beforeEnds
  | cons phrase rest inductionHypothesis =>
      intro second before after beforeEnds afterEnds same
      cases second with
      | nil =>
          obtain ⟨c, letters, shape, startsHere⟩ := started phrase
          rw [List.flatMap_nil, List.nil_append, List.flatMap_cons, shape] at same
          rw [← same] at afterEnds
          simp [startsHere] at afterEnds
      | cons other others =>
          rw [List.flatMap_cons, List.flatMap_cons, List.append_assoc,
            List.append_assoc] at same
          obtain ⟨rfl, behind⟩ := readable phrase other _ _
            (ends_flatMap started apart rest beforeEnds)
            (ends_flatMap started apart others afterEnds) same
          obtain ⟨rfl, rfl⟩ := inductionHypothesis others before after beforeEnds afterEnds
            behind
          exact ⟨rfl, rfl⟩

end

/-! ### Operands -/

theorem LiteralKind.mark_injective {first second : LiteralKind}
    (same : first.mark = second.mark) : first = second := by
  cases first <;> cases second <;> first | rfl | cases same

theorem LiteralKind.mark_not_isUpper (kind : LiteralKind) : kind.mark.isUpper = false := by
  cases kind <;> rfl

theorem LiteralKind.mark_ne_u (kind : LiteralKind) : kind.mark ≠ 'u' := by
  cases kind <;> decide

theorem Arithmetic.letter_injective {first second : Arithmetic}
    (same : first.letter = second.letter) : first = second := by
  cases first <;> cases second <;> first | rfl | cases same

theorem Connective.letter_injective {first second : Connective}
    (same : first.letter = second.letter) : first = second := by
  cases first <;> cases second <;> first | rfl | cases same

namespace NamePhrase

theorem isNameChar_of_mem (phrase : NamePhrase) : ∀ c ∈ phrase.text, Cursor.isNameChar c := by
  rw [text, List.forall_mem_cons]
  exact ⟨by rw [Cursor.isNameChar, phrase.first_isUpper, Bool.true_or], phrase.rest_isNameChar⟩

/-- A name goes as far as its characters do. -/
theorem takeWhile_text (phrase : NamePhrase) {tail : List Char}
    (ends : Ends Cursor.isNameChar tail) :
    (phrase.text ++ tail).takeWhile Cursor.isNameChar = phrase.text := by
  rw [List.takeWhile_append_of_pos phrase.isNameChar_of_mem]
  cases tail with
  | nil => simp
  | cons c tail =>
      rw [ends_cons] at ends
      rw [List.takeWhile_cons_of_neg (by rw [ends]; nofun), List.append_nil]

theorem readable : Readable text Cursor.isNameChar := by
  intro first second before after beforeEnds afterEnds same
  have texts : first.text = second.text := by
    rw [← first.takeWhile_text beforeEnds, same, second.takeWhile_text afterEnds]
  rw [texts] at same
  refine ⟨?_, List.append_cancel_left same⟩
  rcases first with ⟨firstChar, firstRest, _, _⟩
  rcases second with ⟨secondChar, secondRest, _, _⟩
  cases texts
  rfl

end NamePhrase

theorem LiteralPhrase.readable : Readable text fun _ => false := by
  intro first second before after _ _ same
  rcases first with ⟨firstKind, firstContents, firstScalar, firstDelimited, firstDenotes⟩
  rcases second with ⟨secondKind, secondContents, secondScalar, secondDelimited, secondDenotes⟩
  simp only [text, List.cons_append, List.append_assoc, List.nil_append,
    List.cons.injEq] at same
  rcases same with ⟨marks, contents⟩
  obtain rfl := LiteralKind.mark_injective marks
  obtain ⟨rfl, rfl⟩ := Delimited.unique firstKind.mark_ne_escapeLetter firstDelimited
    secondDelimited contents
  rw [firstDenotes] at secondDenotes
  cases secondDenotes
  exact ⟨rfl, rfl⟩

namespace OperandPhrase

theorem readable : Readable text Cursor.isNameChar := by
  intro first second before after beforeEnds afterEnds same
  cases first with
  | «variable» name =>
      have upper := name.first_isUpper
      cases second with
      | «variable» other =>
          obtain ⟨rfl, rfl⟩ := NamePhrase.readable _ _ _ _ beforeEnds afterEnds same
          exact ⟨rfl, rfl⟩
      | input =>
          rw [(List.cons.inj same).1] at upper
          cases upper
      | literal phrase =>
          rw [(List.cons.inj same).1, phrase.kind.mark_not_isUpper] at upper
          cases upper
  | input =>
      cases second with
      | «variable» other =>
          have upper := other.first_isUpper
          rw [← (List.cons.inj same).1] at upper
          cases upper
      | input => exact ⟨rfl, (List.cons.inj same).2⟩
      | literal phrase => exact absurd (List.cons.inj same).1.symm phrase.kind.mark_ne_u
  | literal phrase =>
      cases second with
      | «variable» other =>
          have upper := other.first_isUpper
          rw [← (List.cons.inj same).1, phrase.kind.mark_not_isUpper] at upper
          cases upper
      | input => exact absurd (List.cons.inj same).1 phrase.kind.mark_ne_u
      | literal other =>
          obtain ⟨rfl, rfl⟩ := LiteralPhrase.readable _ _ _ _ (fun _ _ => rfl) (fun _ _ => rfl) same
          exact ⟨rfl, rfl⟩

end OperandPhrase

/-! ### Values and conditions -/

/-- The letters of operators. -/
def Arithmetic.isLetter (c : Char) : Bool :=
  (Operator.ofMark? c).isSome

/-- The letters of connectives. -/
def Connective.isLetter (c : Char) : Bool :=
  (Connective.ofMark? c).isSome

theorem Arithmetic.isLetter_letter (operator : Arithmetic) : isLetter operator.letter := by
  cases operator <;> rfl

theorem Connective.isLetter_letter (connective : Connective) :
    isLetter connective.letter := by
  cases connective <;> rfl

namespace ValuePhrase

/-- What a value can go on with. -/
def more (c : Char) : Bool :=
  Cursor.isNameChar c || Arithmetic.isLetter c

theorem isNameChar_of_isLetter (c : Char) (letter : Arithmetic.isLetter c) :
    Cursor.isNameChar c = false := by
  rw [Arithmetic.isLetter, Option.isSome_iff_exists] at letter
  rcases letter with ⟨operator, marked⟩
  unfold Operator.ofMark? at marked
  split at marked <;> first | rfl | cases marked

theorem readable_link :
    Readable (fun link : Arithmetic × OperandPhrase => link.1.letter :: link.2.text)
      Cursor.isNameChar := by
  rintro ⟨operator, operand⟩ ⟨other, otherOperand⟩ before after beforeEnds afterEnds same
  obtain ⟨letters, operands⟩ := List.cons.inj same
  obtain rfl := Arithmetic.letter_injective letters
  obtain ⟨rfl, rfl⟩ := OperandPhrase.readable _ _ _ _ beforeEnds afterEnds operands
  exact ⟨rfl, rfl⟩

theorem link_starts (link : Arithmetic × OperandPhrase) :
    ∃ c rest, link.1.letter :: link.2.text = c :: rest ∧ Arithmetic.isLetter c :=
  ⟨_, _, rfl, link.1.isLetter_letter⟩

/-- Behind an operand come an operator or what comes behind the value. -/
theorem ends_links (links : List (Arithmetic × OperandPhrase)) {tail : List Char}
    (ends : Ends more tail) : Ends Cursor.isNameChar (linksText links ++ tail) :=
  ends_flatMap link_starts isNameChar_of_isLetter links ends

theorem readable : Readable text more := by
  rintro ⟨first, links⟩ ⟨second, others⟩ before after beforeEnds afterEnds same
  simp only [text, List.append_assoc] at same
  obtain ⟨rfl, behind⟩ := OperandPhrase.readable _ _ _ _ (ends_links links beforeEnds)
    (ends_links others afterEnds) same
  obtain ⟨rfl, rfl⟩ := readable_link.list link_starts isNameChar_of_isLetter links others _ _
    beforeEnds afterEnds behind
  exact ⟨rfl, rfl⟩

end ValuePhrase

namespace ComparisonPhrase

/-- A comparator ends the value in front of it. -/
theorem ends_spelling (comparator : Comparator) (tail : List Char) :
    Ends ValuePhrase.more (comparator.spelling ++ tail) := by
  cases comparator <;> simp [Comparator.spelling] <;> rfl

theorem spelling_unique {comparator other : Comparator} {tail rest : List Char}
    (same : comparator.spelling ++ tail = other.spelling ++ rest) :
    comparator = other ∧ tail = rest := by
  cases comparator <;> cases other <;> simp_all [Comparator.spelling]

theorem readable : Readable text ValuePhrase.more := by
  rintro ⟨left, comparator, right⟩ ⟨left', comparator', right'⟩ before after beforeEnds
    afterEnds same
  simp only [text, List.append_assoc] at same
  obtain ⟨rfl, middle⟩ := ValuePhrase.readable _ _ _ _ (ends_spelling _ _)
    (ends_spelling _ _) same
  obtain ⟨rfl, behind⟩ := spelling_unique middle
  obtain ⟨rfl, rfl⟩ := ValuePhrase.readable _ _ _ _ beforeEnds afterEnds behind
  exact ⟨rfl, rfl⟩

end ComparisonPhrase

namespace ConditionPhrase

/-- What a condition can go on with. -/
def more (c : Char) : Bool :=
  ValuePhrase.more c || Connective.isLetter c

theorem more_of_isLetter (c : Char) (letter : Connective.isLetter c) :
    ValuePhrase.more c = false := by
  rw [Connective.isLetter, Option.isSome_iff_exists] at letter
  rcases letter with ⟨connective, marked⟩
  unfold Connective.ofMark? at marked
  split at marked <;> first | rfl | cases marked

theorem readable_link :
    Readable (fun link : Connective × ComparisonPhrase => link.1.letter :: link.2.text)
      ValuePhrase.more := by
  rintro ⟨connective, comparison⟩ ⟨other, otherComparison⟩ before after beforeEnds afterEnds
    same
  obtain ⟨letters, comparisons⟩ := List.cons.inj same
  obtain rfl := Connective.letter_injective letters
  obtain ⟨rfl, rfl⟩ := ComparisonPhrase.readable _ _ _ _ beforeEnds afterEnds comparisons
  exact ⟨rfl, rfl⟩

theorem link_starts (link : Connective × ComparisonPhrase) :
    ∃ c rest, link.1.letter :: link.2.text = c :: rest ∧ Connective.isLetter c :=
  ⟨_, _, rfl, link.1.isLetter_letter⟩

/-- Behind a comparison come a connective or what comes behind the condition. -/
theorem ends_links (links : List (Connective × ComparisonPhrase)) {tail : List Char}
    (ends : Ends more tail) : Ends ValuePhrase.more (linksText links ++ tail) :=
  ends_flatMap link_starts more_of_isLetter links ends

theorem readable : Readable text more := by
  rintro ⟨first, links⟩ ⟨second, others⟩ before after beforeEnds afterEnds same
  simp only [text, List.append_assoc] at same
  obtain ⟨rfl, behind⟩ := ComparisonPhrase.readable _ _ _ _ (ends_links links beforeEnds)
    (ends_links others afterEnds) same
  obtain ⟨rfl, rfl⟩ := readable_link.list link_starts more_of_isLetter links others _ _
    beforeEnds afterEnds behind
  exact ⟨rfl, rfl⟩

end ConditionPhrase

/-! ### Instructions -/

theorem ModificationPhrase.readable : Readable text ValuePhrase.more := by
  intro first second before after beforeEnds afterEnds same
  cases first with
  | increment =>
      cases second with
      | compound operator value => cases operator <;> simp_all [text, Arithmetic.letter]
      | _ => simp_all [text]
  | decrement =>
      cases second with
      | compound operator value => cases operator <;> simp_all [text, Arithmetic.letter]
      | _ => simp_all [text]
  | compound operator value =>
      cases second with
      | compound other otherValue =>
          simp only [text, List.cons_append, List.cons.injEq, true_and] at same
          obtain rfl := Arithmetic.letter_injective same.1
          obtain ⟨rfl, rfl⟩ := ValuePhrase.readable _ _ _ _ beforeEnds afterEnds same.2
          exact ⟨rfl, rfl⟩
      | _ => cases operator <;> simp_all [text, Arithmetic.letter]
  | assign value =>
      cases second with
      | assign otherValue =>
          simp only [text, List.cons_append, List.cons.injEq, true_and] at same
          obtain ⟨rfl, rfl⟩ := ValuePhrase.readable _ _ _ _ beforeEnds afterEnds same
          exact ⟨rfl, rfl⟩
      | compound operator otherValue => cases operator <;> simp_all [text, Arithmetic.letter]
      | _ => simp_all [text]

/-- Nothing that a phrase reads further than its text. -/
def nothing (_ : Char) : Bool :=
  false

@[simp] theorem ends_nothing {tail : List Char} : Ends nothing tail :=
  fun _ _ => rfl

/-- The mark that ends an instruction ends the value in front of it. -/
theorem ends_instructionEnd {tail : List Char} : Ends ValuePhrase.more ('l' :: tail) := by
  rw [ends_cons]
  rfl

theorem DeclarationPhrase.readable : Readable text nothing := by
  rintro ⟨name, value⟩ ⟨other, otherValue⟩ before after _ _ same
  simp only [text, List.cons_append, List.append_assoc, List.cons.injEq, true_and] at same
  obtain ⟨rfl, behind⟩ := NamePhrase.readable _ _ _ _ (by rw [ends_cons]; rfl)
    (by rw [ends_cons]; rfl) same
  obtain ⟨rfl, last⟩ := ValuePhrase.readable _ _ _ _ ends_instructionEnd
    ends_instructionEnd (List.cons.inj behind).2
  exact ⟨rfl, (List.cons.inj last).2⟩

/-- A name ends where a modification begins. -/
theorem ModificationPhrase.ends_text (phrase : ModificationPhrase) (tail : List Char) :
    Ends Cursor.isNameChar (phrase.text ++ tail) := by
  cases phrase with
  | compound operator value => cases operator <;> simp [text, Arithmetic.letter] <;> rfl
  | _ => simp [text]; rfl

theorem ChangePhrase.readable : Readable text nothing := by
  rintro ⟨name, modification⟩ ⟨other, otherModification⟩ before after _ _ same
  simp only [text, List.append_assoc] at same
  obtain ⟨rfl, behind⟩ := NamePhrase.readable _ _ _ _ (modification.ends_text _)
    (otherModification.ends_text _) same
  obtain ⟨rfl, last⟩ := ModificationPhrase.readable _ _ _ _ ends_instructionEnd
    ends_instructionEnd behind
  exact ⟨rfl, (List.cons.inj last).2⟩

/-- The capital letter of a name is not the letter of another instruction. -/
theorem ChangePhrase.text_ne {phrase : ChangePhrase} {letter : Char} {rest tail : List Char}
    (lower : letter.isUpper = false) : phrase.text ++ tail ≠ letter :: rest := by
  intro same
  have upper := phrase.name.first_isUpper
  rw [(List.cons.inj same).1, lower] at upper
  cases upper

theorem HeadPhrase.readable : Readable text nothing := by
  intro first second before after beforeEnds afterEnds same
  cases first with
  | declare declaration =>
      cases second with
      | declare other =>
          obtain ⟨rfl, rfl⟩ := DeclarationPhrase.readable _ _ _ _ beforeEnds afterEnds same
          exact ⟨rfl, rfl⟩
      | modify change => exact absurd same.symm (ChangePhrase.text_ne rfl)
  | modify change =>
      cases second with
      | declare declaration => exact absurd same (ChangePhrase.text_ne rfl)
      | modify other =>
          obtain ⟨rfl, rfl⟩ := ChangePhrase.readable _ _ _ _ beforeEnds afterEnds same
          exact ⟨rfl, rfl⟩

/-- The characters that instructions start with. -/
def InstructionPhrase.starts (c : Char) : Bool :=
  c.isUpper || c ∈ ['x', 'h', 'v', 'j', 'r', 'f']

theorem ChangePhrase.text_starts (phrase : ChangePhrase) :
    ∃ c rest, phrase.text = c :: rest ∧ InstructionPhrase.starts c :=
  ⟨_, _, rfl, by rw [InstructionPhrase.starts, phrase.name.first_isUpper, Bool.true_or]⟩

theorem HeadPhrase.text_starts (phrase : HeadPhrase) :
    ∃ c rest, phrase.text = c :: rest ∧ InstructionPhrase.starts c := by
  cases phrase with
  | declare declaration => exact ⟨_, _, rfl, rfl⟩
  | modify change => exact change.text_starts

theorem InstructionPhrase.text_starts (phrase : InstructionPhrase) :
    ∃ c rest, phrase.text = c :: rest ∧ starts c := by
  cases phrase with
  | modify change => exact change.text_starts
  | branch condition thenBody elseBody => cases elseBody <;> exact ⟨_, _, rfl, rfl⟩
  | _ => exact ⟨_, _, rfl, rfl⟩

namespace InstructionPhrase

/-- The kind of the instructions that start with a letter. -/
def kindOf : Char → InstructionKind
  | 'x' => .exit
  | 'h' => .print
  | 'v' => .declare
  | 'j' => .branch
  | 'r' => .whileLoop
  | 'f' => .forLoop
  | _ => .modify

theorem kindOf_isUpper {c : Char} (upper : c.isUpper) : kindOf c = .modify := by
  unfold kindOf
  split <;> first | rfl | cases upper

/-- The first character of an instruction says of what kind it is. -/
theorem kindOf_text (phrase : InstructionPhrase) :
    ∃ c rest, phrase.text = c :: rest ∧ kindOf c = phrase.kind := by
  cases phrase with
  | modify change => exact ⟨_, _, rfl, kindOf_isUpper change.name.first_isUpper⟩
  | branch condition thenBody elseBody => cases elseBody <;> exact ⟨_, _, rfl, rfl⟩
  | _ => exact ⟨_, _, rfl, rfl⟩

theorem kind_unique {first second : InstructionPhrase} {before after : List Char}
    (same : first.text ++ before = second.text ++ after) : first.kind = second.kind := by
  obtain ⟨c, rest, firstText, firstKind⟩ := first.kindOf_text
  obtain ⟨d, tail, secondText, secondKind⟩ := second.kindOf_text
  rw [firstText, secondText] at same
  rw [← firstKind, ← secondKind, (List.cons.inj same).1]

/-- What a branch without an alternative can go on with. -/
def more (c : Char) : Bool :=
  c == 'e'

theorem more_of_starts (c : Char) (startsHere : starts c) : more c = false := by
  rw [more, beq_eq_false_iff_ne]
  rintro rfl
  cases startsHere

/-- Behind an instruction come another one or what comes behind all. -/
theorem ends_textAll (phrases : List InstructionPhrase) {tail : List Char}
    (ends : Ends (fun c => more c || starts c) tail) : Ends more (textAll phrases ++ tail) := by
  cases phrases with
  | nil => exact ends.mono fun c moreHere => by rw [moreHere, Bool.true_or]
  | cons phrase rest =>
      obtain ⟨c, letters, shape, startsHere⟩ := phrase.text_starts
      simp [textAll, shape, more_of_starts c startsHere]

/-- The mark that closes a body is the start of no instruction. -/
theorem ends_bodyEnd {tail : List Char} : Ends (fun c => more c || starts c) ('z' :: tail) := by
  rw [ends_cons]
  rfl

/-- What stands in front of a body ends the condition. -/
theorem ends_mark {c : Char} {tail : List Char} (mark : c = 't' ∨ c = 'k') :
    Ends ConditionPhrase.more (c :: tail) := by
  rw [ends_cons]
  rcases mark with rfl | rfl <;> rfl

theorem readable_heads : Readable (List.flatMap HeadPhrase.text) starts :=
  fun first second before after beforeEnds afterEnds same =>
    HeadPhrase.readable.list HeadPhrase.text_starts (fun _ _ => rfl) first second before after
      beforeEnds afterEnds same

theorem readable_changes : Readable (List.flatMap ChangePhrase.text) starts :=
  fun first second before after beforeEnds afterEnds same =>
    ChangePhrase.readable.list ChangePhrase.text_starts (fun _ _ => rfl) first second before
      after beforeEnds afterEnds same

/-- A condition and a body in its marks can be read off if the body can. -/
theorem readable_guarded {condition other : ConditionPhrase}
    {body others : List InstructionPhrase} {before after : List Char}
    (readable : ∀ second before after, Ends (fun c => more c || starts c) before →
      Ends (fun c => more c || starts c) after →
        textAll body ++ before = textAll second ++ after → body = second ∧ before = after)
    (same : condition.text ++ 't' :: (textAll body ++ 'z' :: before) =
      other.text ++ 't' :: (textAll others ++ 'z' :: after)) :
    condition = other ∧ body = others ∧ before = after := by
  obtain ⟨rfl, behind⟩ := ConditionPhrase.readable _ _ _ _ (ends_mark (Or.inl rfl))
    (ends_mark (Or.inl rfl)) same
  obtain ⟨rfl, closed⟩ := readable others _ _ ends_bodyEnd ends_bodyEnd
    (List.cons.inj behind).2
  exact ⟨rfl, rfl, (List.cons.inj closed).2⟩

mutual

theorem readable_text : ∀ (first second : InstructionPhrase) (before after : List Char),
    Ends more before → Ends more after → text first ++ before = text second ++ after →
      first = second ∧ before = after
  | .exit, second, before, after, beforeEnds, afterEnds, same => by
      have kinds := kind_unique same
      cases second <;> cases kinds
      simp only [text, List.cons_append, List.nil_append, List.cons.injEq, true_and] at same
      exact ⟨rfl, same⟩
  | .print value, second, before, after, beforeEnds, afterEnds, same => by
      have kinds := kind_unique same
      cases second <;> cases kinds
      simp only [text, List.cons_append, List.append_assoc, List.nil_append, List.cons.injEq,
        true_and] at same
      obtain ⟨rfl, behind⟩ := ValuePhrase.readable _ _ _ _ ends_instructionEnd
        ends_instructionEnd same
      exact ⟨rfl, (List.cons.inj behind).2⟩
  | .declare declaration, second, before, after, beforeEnds, afterEnds, same => by
      have kinds := kind_unique same
      cases second <;> cases kinds
      obtain ⟨rfl, rfl⟩ := DeclarationPhrase.readable _ _ _ _ ends_nothing ends_nothing same
      exact ⟨rfl, rfl⟩
  | .modify change, second, before, after, beforeEnds, afterEnds, same => by
      have kinds := kind_unique same
      cases second <;> cases kinds
      obtain ⟨rfl, rfl⟩ := ChangePhrase.readable _ _ _ _ ends_nothing ends_nothing same
      exact ⟨rfl, rfl⟩
  | .branch condition thenBody none, second, before, after, beforeEnds, afterEnds, same => by
      have kinds := kind_unique same
      cases second <;> cases kinds
      next otherElse =>
      cases otherElse <;>
        simp only [text, List.cons_append, List.append_assoc, List.nil_append,
          List.cons.injEq, true_and] at same <;>
        obtain ⟨rfl, rfl, behind⟩ := readable_guarded (readable_textAll thenBody) same
      · exact ⟨rfl, behind⟩
      · rw [behind, ends_cons] at beforeEnds
        cases beforeEnds
  | .branch condition thenBody (some elseBody), second, before, after, beforeEnds, afterEnds,
      same => by
      have kinds := kind_unique same
      cases second <;> cases kinds
      next otherElse =>
      cases otherElse <;>
        simp only [text, List.cons_append, List.append_assoc, List.nil_append,
          List.cons.injEq, true_and] at same <;>
        obtain ⟨rfl, rfl, behind⟩ := readable_guarded (readable_textAll thenBody) same
      · rw [← behind, ends_cons] at afterEnds
        cases afterEnds
      · simp only [List.cons.injEq, true_and] at behind
        obtain ⟨rfl, last⟩ := readable_textAll elseBody _ _ _ ends_bodyEnd ends_bodyEnd behind
        exact ⟨rfl, (List.cons.inj last).2⟩
  | .whileLoop condition body, second, before, after, beforeEnds, afterEnds, same => by
      have kinds := kind_unique same
      cases second <;> cases kinds
      simp only [text, List.cons_append, List.append_assoc, List.nil_append, List.cons.injEq,
        true_and] at same
      obtain ⟨rfl, rfl, rfl⟩ := readable_guarded (readable_textAll body) same
      exact ⟨rfl, rfl⟩
  | .forLoop init condition update body, second, before, after, beforeEnds, afterEnds,
      same => by
      have kinds := kind_unique same
      cases second <;> cases kinds
      next otherInit otherCondition otherUpdate otherBody =>
      simp only [text, List.cons_append, List.append_assoc, List.nil_append, List.cons.injEq,
        true_and] at same
      obtain ⟨rfl, behindInit⟩ := readable_heads _ _ _ _ (by rw [ends_cons]; rfl)
        (by rw [ends_cons]; rfl) same
      obtain ⟨rfl, behindCondition⟩ := ConditionPhrase.readable _ _ _ _
        (ends_mark (Or.inr rfl)) (ends_mark (Or.inr rfl)) (List.cons.inj behindInit).2
      obtain ⟨rfl, behindUpdate⟩ := readable_changes _ _ _ _ (by rw [ends_cons]; rfl)
        (by rw [ends_cons]; rfl) (List.cons.inj behindCondition).2
      obtain ⟨rfl, closed⟩ := readable_textAll body otherBody _ _ ends_bodyEnd ends_bodyEnd
        (List.cons.inj behindUpdate).2
      exact ⟨rfl, (List.cons.inj closed).2⟩

theorem readable_textAll : ∀ (first second : List InstructionPhrase)
    (before after : List Char), Ends (fun c => more c || starts c) before →
      Ends (fun c => more c || starts c) after →
        textAll first ++ before = textAll second ++ after → first = second ∧ before = after
  | [], [], _, _, _, _, same => ⟨rfl, same⟩
  | [], phrase :: rest, before, after, beforeEnds, _, same => by
      obtain ⟨c, letters, shape, startsHere⟩ := phrase.text_starts
      rw [textAll, textAll, List.nil_append, shape] at same
      simp [same, startsHere] at beforeEnds
  | phrase :: rest, [], before, after, _, afterEnds, same => by
      obtain ⟨c, letters, shape, startsHere⟩ := phrase.text_starts
      rw [textAll, textAll, List.nil_append, shape] at same
      simp [← same, startsHere] at afterEnds
  | phrase :: rest, other :: others, before, after, beforeEnds, afterEnds, same => by
      rw [textAll, textAll, List.append_assoc, List.append_assoc] at same
      obtain ⟨rfl, behind⟩ := readable_text phrase other _ _ (ends_textAll rest beforeEnds)
        (ends_textAll others afterEnds) same
      obtain ⟨rfl, rfl⟩ := readable_textAll rest others _ _ beforeEnds afterEnds behind
      exact ⟨rfl, rfl⟩

end

end InstructionPhrase

/-- A text is derived in one way at most. -/
theorem ProgramPhrase.text_injective {first second : ProgramPhrase}
    (same : first.text = second.text) : first = second := by
  rcases first with ⟨phrases⟩
  rcases second with ⟨others⟩
  obtain ⟨rfl, _⟩ := InstructionPhrase.readable_textAll phrases others [] [] ends_nil ends_nil
    (by rw [List.append_nil, List.append_nil]; exact same)
  rfl

end Letterline
