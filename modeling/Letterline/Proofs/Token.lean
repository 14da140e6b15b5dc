/-
Module: Letterline.Proofs.Token
Purpose: Which characters the letters, names, literals and comparators of a source are
  read from.
Trusted boundary: none
Main exports:
  Operator.ofMark?_eq_some, Comparator.ofSpelling?_eq_some, Cursor.readIdentifier_passes,
  Parser.yields_literalContents
-/
import Letterline.Condition.Parser
import Letterline.Proofs.Grammar
import Letterline.Proofs.Reading

namespace Letterline

/-! ### Letters -/

theorem Operator.ofMark?_eq_some {c : Char} {operator : Operator} :
    ofMark? c = some operator ↔
      ∃ arithmetic : Arithmetic, c = arithmetic.letter ∧ operator = arithmetic.operator := by
  constructor
  · intro marked
    unfold ofMark? at marked
    split at marked <;> cases marked
    · exact ⟨.plus, rfl, rfl⟩
    · exact ⟨.minus, rfl, rfl⟩
    · exact ⟨.times, rfl, rfl⟩
    · exact ⟨.divide, rfl, rfl⟩
    · exact ⟨.modulo, rfl, rfl⟩
  · intro evidence
    rcases evidence with ⟨arithmetic, rfl, rfl⟩
    cases arithmetic <;> rfl

theorem Connective.ofMark?_eq_some {c : Char} {connective : Connective} :
    ofMark? c = some connective ↔ c = connective.letter := by
  constructor
  · intro marked
    unfold ofMark? at marked
    split at marked <;> cases marked <;> rfl
  · rintro rfl
    cases connective <;> rfl

theorem LiteralKind.ofMark?_eq_some {c : Char} {kind : LiteralKind} :
    ofMark? c = some kind ↔ c = kind.mark := by
  constructor
  · intro marked
    unfold ofMark? at marked
    split at marked <;> cases marked <;> rfl
  · rintro rfl
    cases kind <;> rfl

theorem Comparator.ofSpelling?_eq_some {spelled : String} {comparator : Comparator} :
    ofSpelling? spelled = some comparator ↔ spelled.toList = comparator.spelling := by
  constructor
  · intro found
    unfold ofSpelling? at found
    split at found <;> cases found <;> rfl
  · intro letters
    rw [← String.ofList_toList (s := spelled), letters]
    cases comparator <;> rfl

/-- The span of a text is where the cursor stood and where it stands. -/
theorem Cursor.Passes.over {cursor after : Cursor} {text : List Char}
    (passes : cursor.Passes text after) :
    Span.over cursor.offset text = ⟨cursor.offset, after.offset⟩ := by
  rw [Span.over, passes.offset]

/-! ### Names -/

namespace Cursor

variable {cursor : Cursor} {first : Char} {tail : List Char}

/-- A name is read as far as it goes, and the cursor stops behind it.  A cursor that is
to stop on its last character can be stepped on. -/
theorem readIdentifier_passes (keepPosition : Bool) (here : cursor.rest = first :: tail)
    (nameChar : isNameChar first) :
    (cursor.readIdentifier keepPosition).1 =
        String.ofList ((first :: tail.takeWhile isNameChar).map Char.toLower) ∧
      cursor.Passes (first :: tail.takeWhile isNameChar)
        (if keepPosition then (cursor.readIdentifier keepPosition).2.next
          else (cursor.readIdentifier keepPosition).2) := by
  obtain ⟨going, rfl, rfl⟩ := rest_eq_cons.mp here
  have whole : cursor.rest = (cursor.current :: cursor.after.takeWhile isNameChar)
      ++ cursor.after.dropWhile isNameChar := by
    rw [here, List.cons_append, List.takeWhile_append_dropWhile]
  have passes := Passes.advance whole
  rw [List.length_cons, advance_succ] at passes
  simp only [readIdentifier, going, nameChar]
  refine ⟨rfl, ?_⟩
  cases keepPosition with
  | false => exact passes
  | true =>
      cases more : (cursor.advance (cursor.after.takeWhile isNameChar).length).hasNext with
      | true => simpa [more] using passes
      | false =>
          have finished := passes.trans (.next_of_end (rest_next_eq_nil more))
          simpa [more] using finished

theorem isNameChar_of_isUpper {c : Char} (upper : c.isUpper) : isNameChar c := by
  rw [isNameChar, upper, Bool.true_or]

/-- A name phrase is read where a capital letter stands. -/
theorem exists_name (keepPosition : Bool) (going : ¬cursor.exhausted = true)
    (upper : cursor.current.isUpper) :
    ∃ phrase : NamePhrase, (cursor.readIdentifier keepPosition).1 = phrase.name ∧
      cursor.Passes phrase.text
        (if keepPosition then (cursor.readIdentifier keepPosition).2.next
          else (cursor.readIdentifier keepPosition).2) := by
  have nameChar := isNameChar_of_isUpper upper
  have rest_isNameChar : ∀ c ∈ cursor.after.takeWhile isNameChar, isNameChar c := by
    intro c member
    exact List.all_eq_true.mp List.all_takeWhile c member
  exact ⟨⟨cursor.current, cursor.after.takeWhile isNameChar, upper, rest_isNameChar⟩,
    readIdentifier_passes keepPosition (rest_of_going going) nameChar⟩

end Cursor

namespace Parser

variable {cursor after : Cursor}

@[simp] theorem yields_name {keepPosition : Bool} {result : String} :
    (name keepPosition).Yields cursor result after ↔
      (cursor.readIdentifier keepPosition).1 = result ∧
        (cursor.readIdentifier keepPosition).2 = after := by
  constructor
  · intro yields
    cases yields
    exact ⟨rfl, rfl⟩
  · intro evidence
    rcases evidence with ⟨rfl, rfl⟩
    rfl

/-- A literal is read up to its closing delimiter. -/
theorem yields_literalContents {mark : Char} {tail : List Char} {result : String}
    (here : cursor.rest = mark :: tail) (ordinary : mark ≠ Cursor.escapeLetter) :
    literalContents.Yields cursor result after ↔
      ∃ contents rest, tail = contents ++ mark :: rest ∧ Delimited mark contents ∧
        String.ofList contents = result ∧ cursor.advance (contents.length + 1) = after := by
  obtain ⟨going, rfl, rfl⟩ := Cursor.rest_eq_cons.mp here
  simp only [literalContents, yields_bind, yields_cursor, and_assoc, exists_and_left,
    exists_eq_left']
  cases found : Cursor.splitLiteral cursor.current false cursor.current cursor.after with
  | none =>
      simp only [Cursor.readDelimited, found, yields_set, yields_throw, and_false, exists_false,
        false_iff]
      intro evidence
      rcases evidence with ⟨contents, rest, split, delimited, _⟩
      rw [(Cursor.splitLiteral_eq_some_iff ordinary).mpr ⟨split, delimited⟩] at found
      cases found
  | some scanned =>
      rcases scanned with ⟨contents, rest⟩
      obtain ⟨split, delimited⟩ := (Cursor.splitLiteral_eq_some_iff ordinary).mp found
      simp only [Cursor.readDelimited, found, yields_set, yields_pure, exists_eq_left',
        exists_const]
      constructor
      · intro evidence
        rcases evidence with ⟨rfl, rfl⟩
        exact ⟨contents, rest, split, delimited, rfl, rfl⟩
      · intro evidence
        rcases evidence with ⟨others, tail, otherSplit, otherDelimited, rfl, rfl⟩
        obtain ⟨rfl, _⟩ := delimited.unique ordinary otherDelimited (split.symm.trans otherSplit)
        exact ⟨rfl, rfl⟩

end Parser

end Letterline
