/-
Module: Letterline.Proofs.Reading
Purpose: What a cursor has still to read, and what parsers yield from it.
Trusted boundary: none
Main exports:
  Cursor.rest, Cursor.Passes, Parser.Yields, Parser.yields_bind, Parser.yields_expect
-/
import Letterline.Parser

namespace Letterline

/-! ### Cursors -/

namespace Cursor

/-- The characters that are still to be read. -/
def rest (cursor : Cursor) : List Char :=
  if cursor.exhausted then [] else cursor.current :: cursor.after

variable {cursor middle after : Cursor} {c : Char} {text more tail : List Char}

theorem exhausted_iff : cursor.exhausted = true ↔ cursor.rest = [] := by
  rw [rest]
  split <;> simp_all

theorem rest_eq_cons : cursor.rest = c :: tail ↔
    cursor.exhausted = false ∧ cursor.current = c ∧ cursor.after = tail := by
  rw [rest]
  split <;> simp_all

/-- Before the end of the source something stands here. -/
theorem rest_of_going (going : ¬cursor.exhausted = true) :
    cursor.rest = cursor.current :: cursor.after :=
  rest_eq_cons.mpr ⟨by simpa using going, rfl, rfl⟩

theorem index_eq_offset (going : ¬cursor.exhausted = true) : cursor.index = cursor.offset := by
  simp [offset, going]

theorem remaining_eq : cursor.remaining = cursor.rest.length := by
  rw [remaining, rest]
  split <;> simp

@[simp] theorem rest_next : cursor.next.rest = cursor.rest.tail := by
  rw [next]
  split
  · next last => by_cases exhausted : cursor.exhausted <;> simp [rest, exhausted, last]
  · next c rest some =>
      have going : cursor.exhausted = false := by
        rw [← Bool.not_eq_true]
        intro exhausted
        rw [cursor.last_of_exhausted exhausted] at some
        cases some
      simp [Cursor.rest, going, some]

theorem rest_next_eq_nil (last : cursor.hasNext = false) : cursor.next.rest = [] := by
  have last : cursor.after = [] := by simpa [hasNext] using last
  rw [rest_next, rest]
  split
  · rfl
  · rw [List.tail_cons, last]

theorem offset_next (going : cursor.rest ≠ []) : cursor.next.offset = cursor.offset + 1 := by
  have going : cursor.exhausted = false := by
    rwa [← Bool.not_eq_true, exhausted_iff]
  rw [next]
  split <;> simp [offset, index, going]

@[simp] theorem length_next : cursor.next.length = cursor.length := by
  rw [next]
  split
  · rfl
  · next some => simp [length, some]; omega

/-- The characters that have been read and those that have not make up the source. -/
theorem offset_add_rest : cursor.offset + cursor.rest.length = cursor.length := by
  rw [offset, rest, length, index]
  split
  · next exhausted => simp [cursor.last_of_exhausted exhausted]
  · simp only [Nat.add_zero, List.length_cons]
    omega

@[simp] theorem rest_advance (count : Nat) :
    (cursor.advance count).rest = cursor.rest.drop count := by
  induction count generalizing cursor with
  | zero => rfl
  | succ count inductionHypothesis =>
      rw [advance, inductionHypothesis, rest_next, List.drop_tail]

@[simp] theorem length_advance (count : Nat) :
    (cursor.advance count).length = cursor.length := by
  induction count generalizing cursor with
  | zero => rfl
  | succ count inductionHypothesis => rw [advance, inductionHypothesis, length_next]

theorem advance_succ (count : Nat) :
    cursor.advance (count + 1) = (cursor.advance count).next := by
  induction count generalizing cursor with
  | zero => rfl
  | succ count inductionHypothesis => rw [advance, inductionHypothesis]; rfl

/-- One cursor comes behind another in the same source, with a text between them. -/
structure Passes (cursor : Cursor) (text : List Char) (after : Cursor) : Prop where
  rest : cursor.rest = text ++ after.rest
  length : after.length = cursor.length

namespace Passes

theorem refl (cursor : Cursor) : cursor.Passes [] cursor :=
  ⟨rfl, rfl⟩

theorem trans (first : cursor.Passes text middle) (second : middle.Passes more after) :
    cursor.Passes (text ++ more) after where
  rest := by rw [first.rest, second.rest, List.append_assoc]
  length := second.length.trans first.length

theorem next (here : cursor.rest = c :: tail) : cursor.Passes [c] cursor.next where
  rest := by rw [rest_next, here]; rfl
  length := length_next

/-- At the end of the source a cursor goes nowhere. -/
theorem next_of_end (finished : cursor.rest = []) : cursor.Passes [] cursor.next where
  rest := by rw [rest_next, finished]; rfl
  length := length_next

theorem advance (here : cursor.rest = text ++ tail) :
    cursor.Passes text (cursor.advance text.length) where
  rest := by rw [rest_advance, here, List.drop_left]
  length := length_advance _

/-- A text moves the cursor by its length. -/
theorem offset (passes : cursor.Passes text after) :
    after.offset = cursor.offset + text.length := by
  have before := cursor.offset_add_rest
  have behind := after.offset_add_rest
  rw [passes.rest, List.length_append] at before
  rw [passes.length] at behind
  omega

/-- A cursor is as far from the end as it has text to pass. -/
theorem rest_length (passes : cursor.Passes text after) :
    cursor.rest.length = text.length + after.rest.length := by
  rw [passes.rest, List.length_append]

end Passes

/-- The cursor of a source stands on its first character. -/
theorem ofSource_eq_ok {source : String} {cursor : Cursor}
    (opened : ofSource source = .ok cursor) :
    cursor.rest = source.toList ∧ source.toList ≠ [] ∧ ' ' ∉ source.toList ∧
      cursor.offset = 0 ∧ cursor.length = source.toList.length := by
  rw [ofSource] at opened
  split at opened
  · cases opened
  · next first others text =>
      split at opened
      · cases opened
      · next none =>
          cases opened
          rw [text]
          refine ⟨rfl, by simp, fun member => ?_, rfl, by simp [length]; omega⟩
          have other := List.findIdx?_eq_none_iff.mp none ' ' member
          simp at other

/-- A source with a character and without spaces has a cursor. -/
theorem exists_ofSource {source : String} (filled : source.toList ≠ [])
    (spaceless : ' ' ∉ source.toList) : ∃ cursor, ofSource source = .ok cursor := by
  rw [ofSource]
  split
  · next empty => exact absurd empty filled
  · next first others text =>
      rw [text] at spaceless
      have none : (first :: others).findIdx? (· == ' ') = none := by
        rw [List.findIdx?_eq_none_iff]
        intro c member
        have differs : c ≠ ' ' := fun same => spaceless (same ▸ member)
        simpa using differs
      rw [none]
      exact ⟨_, rfl⟩

end Cursor

/-! ### Parsers -/

namespace Parser

variable {α β : Type} {cursor after : Cursor} {result : α}

/-- A parser succeeds from a cursor with a result and stops at another cursor. -/
def Yields (parser : Parser α) (cursor : Cursor) (result : α) (after : Cursor) : Prop :=
  parser cursor = .ok result after

@[simp] theorem yields_pure {value : α} :
    (pure value : Parser α).Yields cursor result after ↔ value = result ∧ cursor = after := by
  constructor
  · intro yields
    cases yields
    exact ⟨rfl, rfl⟩
  · intro evidence
    rcases evidence with ⟨rfl, rfl⟩
    rfl

@[simp] theorem yields_bind {first : Parser α} {second : α → Parser β} {result : β} :
    (first >>= second).Yields cursor result after ↔
      ∃ value middle, first.Yields cursor value middle ∧
        (second value).Yields middle result after := by
  simp only [Yields, bind, EStateM.bind]
  constructor
  · intro yields
    split at yields
    · next value middle done => exact ⟨value, middle, done, yields⟩
    · cases yields
  · intro evidence
    rcases evidence with ⟨value, middle, done, yields⟩
    rw [done]
    exact yields

@[simp] theorem yields_throw {error : ParseError} :
    ¬(throw error : Parser α).Yields cursor result after :=
  nofun

@[simp] theorem yields_unexpected {expected : Expectation} :
    ¬(unexpected expected : Parser α).Yields cursor result after :=
  nofun

@[simp] theorem yields_cursor {found : Cursor} :
    Parser.cursor.Yields cursor found after ↔ cursor = found ∧ cursor = after := by
  constructor
  · intro yields
    cases yields
    exact ⟨rfl, rfl⟩
  · intro evidence
    rcases evidence with ⟨rfl, rfl⟩
    rfl

@[simp] theorem yields_set {there : Cursor} {result : PUnit} :
    (set there : Parser PUnit).Yields cursor result after ↔ there = after := by
  constructor
  · intro yields
    cases yields
    rfl
  · rintro rfl
    rfl

@[simp] theorem yields_step {result : Unit} :
    step.Yields cursor result after ↔ cursor.next = after := by
  constructor
  · intro yields
    cases yields
    rfl
  · rintro rfl
    rfl

/-- An expected mark is the next character. -/
theorem yields_expect {mark : Char} {expected : Expectation} {result : Unit} :
    (expect mark expected).Yields cursor result after ↔
      (∃ tail, cursor.rest = mark :: tail) ∧ cursor.next = after := by
  simp only [expect, yields_bind, yields_cursor, and_assoc, exists_and_left, exists_eq_left']
  constructor
  · intro yields
    split at yields
    · cases yields_unexpected yields
    · next here =>
        simp only [Bool.or_eq_true, bne_iff_ne, not_or, Decidable.not_not,
          Bool.not_eq_true] at here
        exact ⟨⟨_, Cursor.rest_eq_cons.mpr ⟨here.1, here.2, rfl⟩⟩, yields_step.mp yields⟩
  · intro evidence
    rcases evidence with ⟨⟨tail, here⟩, rfl⟩
    obtain ⟨going, current, _⟩ := Cursor.rest_eq_cons.mp here
    simp [going, current]

/-- A parser runs from the first character of a source that has a cursor. -/
theorem runFrom_eq_ok {parser : Parser α} {source : String} :
    parser.runFrom source = .ok (result, after) ↔
      ∃ cursor, Cursor.ofSource source = .ok cursor ∧ parser.Yields cursor result after := by
  rw [runFrom]
  split
  · next cursor opened =>
      simp only [opened, Except.ok.injEq, exists_eq_left', runOn, Yields]
      split
      · next found there done => simp [done]
      · next error there failed => simp [failed]
  · next refused => simp [refused]

end Parser

end Letterline
