/-
Module: Letterline.Proofs.CursorOperation
Purpose: Whatever a cursor is told to do, it stays in its source and only goes forward.
Trusted boundary: none
Main exports:
  Cursor.Operation, Cursor.perform, Cursor.performAll, IndexedCursor.performAll?,
  IndexedCursor.InBounds, Cursor.exists_advance, Cursor.operations_in_bounds
-/
import Letterline.Proofs.IndexedCursor
import Mathlib.Data.List.TakeWhile

namespace Letterline

/-!
All that an operation can do to a cursor is to advance it by some number of characters.  So what
holds of advancing holds of any operations in any order, also behind a literal that came to no end:
the cursor stays in its source, what has been read stays read, and a cursor that is exhausted stays
so.  The one operation that goes back goes back over what it has just read.
-/

/-! ### Operations -/

namespace Cursor

/-- What a cursor can be asked and told. -/
inductive Operation where
  | current
  | peek
  | previous
  | hasNext
  | index
  | offset
  | isExhausted
  | length
  | isEmpty
  | next
  | readDelimited
  | readIdentifier (keepPosition : Bool)
deriving Repr, DecidableEq

/-- What an operation answers. -/
inductive Answer where
  | character (c : Char)
  | truth (value : Bool)
  | count (n : Nat)
  | name (text : String)
  /-- The contents of a literal, if it ends. -/
  | contents (text : Option (List Char))
deriving Repr, DecidableEq

/-- The answer to an operation, and the cursor behind it. -/
def perform (operation : Operation) (cursor : Cursor) : Answer × Cursor :=
  match operation with
  | .current => (.character cursor.current, cursor)
  | .peek => (.character cursor.peek, cursor)
  | .previous => (.character cursor.previous, cursor)
  | .hasNext => (.truth cursor.hasNext, cursor)
  | .index => (.count cursor.index, cursor)
  | .offset => (.count cursor.offset, cursor)
  | .isExhausted => (.truth cursor.exhausted, cursor)
  | .length => (.count cursor.length, cursor)
  | .isEmpty => (.truth (cursor.length == 0), cursor)
  | .next => (.character cursor.next.current, cursor.next)
  | .readDelimited => (.contents cursor.readDelimited.1, cursor.readDelimited.2)
  | .readIdentifier keepPosition =>
      (.name (cursor.readIdentifier keepPosition).1, (cursor.readIdentifier keepPosition).2)

/-- The answers to operations one after the other, and the cursor behind them. -/
def performAll : List Operation → Cursor → List Answer × Cursor
  | [], cursor => ([], cursor)
  | operation :: rest, cursor =>
      let (answer, after) := cursor.perform operation
      let (answers, there) := performAll rest after
      (answer :: answers, there)

end Cursor

namespace IndexedCursor

open Cursor (Operation Answer)

/-- The answer to an operation, and the position behind it. -/
def perform? (operation : Operation) (cursor : IndexedCursor) :
    Option (Answer × IndexedCursor) :=
  match operation with
  | .current => return (.character (← cursor.current?), cursor)
  | .peek => return (.character (← cursor.peek?), cursor)
  | .previous => return (.character (← cursor.previous?), cursor)
  | .hasNext => return (.truth (← cursor.hasNext?), cursor)
  | .index => return (.count cursor.position, cursor)
  | .offset => return (.count cursor.offset, cursor)
  | .isExhausted => return (.truth cursor.exhausted, cursor)
  | .length => return (.count cursor.characters.length, cursor)
  | .isEmpty => return (.truth cursor.characters.isEmpty, cursor)
  | .next => do
      let (c, there) ← cursor.next?
      return (.character c, there)
  | .readDelimited => do
      let (contents, there) ← cursor.readDelimited?
      return (.contents contents, there)
  | .readIdentifier keepPosition => do
      let (name, there) ← cursor.readIdentifier? keepPosition
      return (.name name, there)

/-- The answers to operations one after the other, if all of them have one. -/
def performAll? : List Operation → IndexedCursor → Option (List Answer × IndexedCursor)
  | [], cursor => return ([], cursor)
  | operation :: rest, cursor => do
      let (answer, after) ← cursor.perform? operation
      let (answers, there) ← performAll? rest after
      return (answer :: answers, there)

/-- A position in a source is in front of its end, and in front of nothing but its end once the
last character has been stepped over. -/
structure InBounds (source : List Char) (cursor : IndexedCursor) : Prop where
  characters : cursor.characters = source
  position_lt : cursor.position < source.length
  last_of_exhausted : cursor.exhausted → cursor.position + 1 = source.length
  offset_le : cursor.offset ≤ source.length

end IndexedCursor

namespace Cursor

variable {source : String} {cursor : Cursor}

theorem offset_indexed (cursor : Cursor) : cursor.indexed.offset = cursor.offset := by
  rw [IndexedCursor.offset, offset, indexed]
  cases cursor.exhausted <;> rfl

/-- No operation misses a character or a number, and all answers are the cursor's. -/
theorem perform?_indexed (operation : Operation) (cursor : Cursor) :
    cursor.indexed.perform? operation =
      some ((cursor.perform operation).1, (cursor.perform operation).2.indexed) := by
  cases operation with
  | current => rw [IndexedCursor.perform?, current?_indexed]; rfl
  | peek => rw [IndexedCursor.perform?, peek?_indexed]; rfl
  | previous => rw [IndexedCursor.perform?, previous?_indexed]; rfl
  | hasNext => rw [IndexedCursor.perform?, hasNext?_indexed]; rfl
  | index => rfl
  | offset => rw [IndexedCursor.perform?, offset_indexed]; rfl
  | isExhausted => rfl
  | length => rw [IndexedCursor.perform?, indexed, length_characters]; rfl
  | isEmpty =>
      have empty : cursor.characters.isEmpty = (cursor.length == 0) := by
        rw [Bool.eq_iff_iff, List.isEmpty_iff_length_eq_zero, length_characters, beq_iff_eq]
      rw [IndexedCursor.perform?, indexed, empty]
      rfl
  | next => rw [IndexedCursor.perform?, next?_indexed]; rfl
  | readDelimited => rw [IndexedCursor.perform?, readDelimited?_indexed]; rfl
  | readIdentifier keepPosition =>
      rw [IndexedCursor.perform?, readIdentifier?_indexed]; rfl

theorem performAll?_indexed (operations : List Operation) (cursor : Cursor) :
    cursor.indexed.performAll? operations =
      some ((cursor.performAll operations).1, (cursor.performAll operations).2.indexed) := by
  induction operations generalizing cursor with
  | nil => rfl
  | cons operation rest inductionHypothesis =>
      simp only [IndexedCursor.performAll?, perform?_indexed, inductionHypothesis, performAll,
        Option.bind_eq_bind, Option.bind_some]
      rfl

/-! ### Where operations lead -/

/-- Every operation advances the cursor by some number of characters. -/
theorem exists_advance (operation : Operation) (cursor : Cursor) :
    ∃ count, (cursor.perform operation).2 = cursor.advance count := by
  cases operation with
  | next => exact ⟨1, rfl⟩
  | readDelimited => exact cursor.exists_advance_readDelimited
  | readIdentifier keepPosition => exact cursor.exists_advance_readIdentifier keepPosition
  | _ => exact ⟨0, rfl⟩

theorem exists_advance_all (operations : List Operation) (cursor : Cursor) :
    ∃ count, (cursor.performAll operations).2 = cursor.advance count := by
  induction operations generalizing cursor with
  | nil => exact ⟨0, rfl⟩
  | cons operation rest inductionHypothesis =>
      obtain ⟨first, performed⟩ := cursor.exists_advance operation
      obtain ⟨second, performedRest⟩ := inductionHypothesis (cursor.perform operation).2
      exact ⟨first + second, by rw [advance_add, ← performed, ← performedRest]; rfl⟩

/-- The cursor of a source stands at its beginning. -/
theorem indexed_of_ofSource (opened : ofSource source = .ok cursor) :
    cursor.indexed = ⟨source.toList, 0, false⟩ := by
  rw [ofSource] at opened
  split at opened
  · cases opened
  · next first rest text =>
      split at opened
      · cases opened
      · cases opened
        rw [text]
        rfl

/-- A cursor is a position in its source. -/
theorem inBounds_indexed (cursor : Cursor) : cursor.indexed.InBounds cursor.characters where
  characters := rfl
  position_lt := by
    rw [length_characters]
    change cursor.before.length < _
    rw [length]
    omega
  last_of_exhausted exhausted := by
    rw [length_characters, length, cursor.last_of_exhausted exhausted]
    rfl
  offset_le := by
    have parts := cursor.offset_add_rest
    rw [length_characters, offset_indexed]
    omega

/-! ### The two ways to read a name -/

/-- A name that is not empty ends the source if and only if all that is left are its characters. -/
theorem all_rest_eq (going : cursor.exhausted = false) (nameChar : isNameChar cursor.current) :
    cursor.rest.all isNameChar =
      !(cursor.advance (cursor.after.takeWhile isNameChar).length).hasNext := by
  have behind : (cursor.advance (cursor.after.takeWhile isNameChar).length).after =
      cursor.after.dropWhile isNameChar := by
    calc (cursor.advance (cursor.after.takeWhile isNameChar).length).after
      _ = (cursor.after.takeWhile isNameChar ++ cursor.after.dropWhile isNameChar).drop
          (cursor.after.takeWhile isNameChar).length := by
        rw [after_advance, List.takeWhile_append_dropWhile]
      _ = cursor.after.dropWhile isNameChar := List.drop_left
  rw [hasNext, behind, Bool.not_not, rest_of_going (by simp [going]), List.all_cons, nameChar,
    Bool.true_and, Bool.eq_iff_iff, List.isEmpty_iff, List.dropWhile_eq_nil_iff, List.all_eq_true]

theorem offset_next_of_hasNext (more : cursor.hasNext) :
    cursor.next.offset = cursor.offset + 1 := by
  refine offset_next fun finished => ?_
  rw [hasNext, cursor.last_of_exhausted (exhausted_iff.mpr finished)] at more
  cases more

/-- Behind a name the cursor stands one character further on than at its last one, unless the name
is empty or ends the source. -/
theorem readIdentifier_modes (cursor : Cursor) :
    (cursor.readIdentifier true).1 = (cursor.readIdentifier false).1 ∧
      if (cursor.readIdentifier true).1 = "" ∨ cursor.rest.all isNameChar then
        (cursor.readIdentifier true).2 = (cursor.readIdentifier false).2
      else
        (cursor.readIdentifier true).2.offset + 1 = (cursor.readIdentifier false).2.offset := by
  simp only [readIdentifier]
  by_cases stands : (cursor.exhausted || !isNameChar cursor.current) = true
  · simp only [if_pos stands, true_or, if_true, and_self]
  simp only [if_neg stands]
  refine ⟨trivial, ?_⟩
  simp only [Bool.or_eq_true, Bool.not_eq_true', not_or, Bool.not_eq_true, Bool.not_eq_false]
    at stands
  rw [all_rest_eq stands.1 stands.2]
  cases more : (cursor.advance (cursor.after.takeWhile isNameChar).length).hasNext with
  | true => simp [offset_next_of_hasNext more]
  | false => simp

/-- Whatever a cursor is asked and told, and in whatever order, it is a position in its source: no
character is looked for outside of it and nothing is subtracted from less.  What has been read
stays read.  And the two ways to read a name differ in nothing but where they stop. -/
theorem operations_in_bounds (filled : source.toList ≠ []) (spaceless : ' ' ∉ source.toList) :
    (∃ start, ofSource source = .ok start ∧ start.indexed = ⟨source.toList, 0, false⟩ ∧
      ∀ operations : List Operation, ∃ answers there,
        start.performAll operations = (answers, there) ∧
        start.indexed.performAll? operations = some (answers, there.indexed) ∧
        there.indexed.InBounds source.toList ∧
        ∀ further : List Operation,
          there.offset ≤ (there.performAll further).2.offset ∧
          (there.exhausted → (there.performAll further).2.exhausted)) ∧
    ∀ cursor : Cursor,
      (cursor.readIdentifier true).1 = (cursor.readIdentifier false).1 ∧
      if (cursor.readIdentifier true).1 = "" ∨ cursor.rest.all isNameChar then
        (cursor.readIdentifier true).2 = (cursor.readIdentifier false).2
      else
        (cursor.readIdentifier true).2.offset + 1 = (cursor.readIdentifier false).2.offset := by
  refine ⟨?_, readIdentifier_modes⟩
  obtain ⟨start, opened⟩ := exists_ofSource filled spaceless
  have atStart := indexed_of_ofSource opened
  refine ⟨start, opened, atStart, fun operations => ?_⟩
  obtain ⟨count, advanced⟩ := start.exists_advance_all operations
  refine ⟨_, _, rfl, performAll?_indexed operations start, ?_, fun further => ?_⟩
  · have same : (start.performAll operations).2.characters = source.toList := by
      rw [advanced, characters_advance]
      exact congrArg IndexedCursor.characters atStart
    exact same ▸ inBounds_indexed _
  · obtain ⟨more, goesOn⟩ := (start.performAll operations).2.exists_advance_all further
    rw [goesOn, offset_advance]
    have bound := (start.performAll operations).2.offset_add_rest
    exact ⟨by omega, exhausted_advance more⟩

/-- In `iAB` no literal ends, and behind it a name is read that ends the source. -/
theorem operations_behind_open_literal :
    "iAB".toList ≠ [] ∧ ' ' ∉ "iAB".toList ∧
      ∃ start, ofSource "iAB" = .ok start ∧
        start.indexed.performAll?
            [.readDelimited, .previous, .readIdentifier true, .readIdentifier true, .offset] =
          some ([.contents none, .character 'A', .name "b", .name "", .count 3],
            ⟨['i', 'A', 'B'], 2, true⟩) := by
  have filled : "iAB".toList ≠ [] := by decide
  have spaceless : ' ' ∉ "iAB".toList := by decide
  obtain ⟨start, opened, -, runs⟩ := (operations_in_bounds filled spaceless).1
  refine ⟨filled, spaceless, start, opened, ?_⟩
  obtain ⟨answers, there, performed, checked, -⟩ :=
    runs [.readDelimited, .previous, .readIdentifier true, .readIdentifier true, .offset]
  cases opened
  cases performed
  exact checked

end Cursor

end Letterline
