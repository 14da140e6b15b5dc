/-
Module: Letterline.Proofs.Advance
Purpose: A cursor moves in one way only: it is advanced by a number of characters.
Trusted boundary: none
Main exports:
  Cursor.characters, Cursor.next_of_after_cons, Cursor.offset_advance,
  Cursor.exists_advance_readDelimited, Cursor.exists_advance_readIdentifier
-/
import Letterline.Proofs.Reading

namespace Letterline.Cursor

/-!
Going on by one character, reading a literal and reading a name are all the ways to move a cursor,
and each of them leaves it some number of characters further on.  This is so also for a literal that
comes to no end, and for a name whose last character the cursor goes back to.  A cursor that is
advanced stays in its source and never gets behind where it was.
-/

variable {cursor : Cursor} {c : Char} {rest : List Char}

/-! ### One character -/

theorem going_of_after_cons (more : cursor.after = c :: rest) : cursor.exhausted = false := by
  rw [← Bool.not_eq_true]
  intro exhausted
  rw [cursor.last_of_exhausted exhausted] at more
  cases more

theorem next_of_after_nil (last : cursor.after = []) :
    cursor.next = { cursor with exhausted := true, last_of_exhausted := fun _ => last } := by
  rw [next]
  split
  · rfl
  · next some => rw [last] at some; cases some

theorem next_of_after_cons (more : cursor.after = c :: rest) :
    cursor.next = ⟨cursor.current :: cursor.before, c, rest, false,
      fun impossible => absurd impossible Bool.false_ne_true⟩ := by
  rw [next]
  split
  · next none => rw [more] at none; cases none
  · next some =>
      rw [more] at some
      cases some
      rfl

/-- At the end of the source a cursor stays as it is. -/
theorem next_of_exhausted (exhausted : cursor.exhausted = true) : cursor.next = cursor := by
  rw [next_of_after_nil (cursor.last_of_exhausted exhausted)]
  cases cursor
  cases exhausted
  rfl

/-- All characters of the source. -/
def characters (cursor : Cursor) : List Char :=
  cursor.before.reverse ++ cursor.current :: cursor.after

@[simp] theorem length_characters (cursor : Cursor) :
    cursor.characters.length = cursor.length := by
  simp only [characters, length, List.length_append, List.length_reverse, List.length_cons]
  omega

@[simp] theorem characters_next (cursor : Cursor) : cursor.next.characters = cursor.characters := by
  rcases ahead : cursor.after with _ | ⟨c, rest⟩
  · rw [next_of_after_nil ahead]
    rfl
  · rw [next_of_after_cons ahead]
    simp [characters, ahead]

@[simp] theorem after_next (cursor : Cursor) : cursor.next.after = cursor.after.tail := by
  rcases ahead : cursor.after with _ | ⟨c, rest⟩
  · rw [next_of_after_nil ahead]
    exact ahead
  · rw [next_of_after_cons ahead, List.tail_cons]

theorem exhausted_next_eq (cursor : Cursor) : cursor.next.exhausted = !cursor.hasNext := by
  rcases ahead : cursor.after with _ | ⟨c, rest⟩
  · simp [next_of_after_nil ahead, hasNext, ahead]
  · simp [next_of_after_cons ahead, hasNext, ahead]

/-! ### Some characters -/

@[simp] theorem characters_advance (count : Nat) (cursor : Cursor) :
    (cursor.advance count).characters = cursor.characters := by
  induction count generalizing cursor with
  | zero => rfl
  | succ count inductionHypothesis => rw [advance, inductionHypothesis, characters_next]

@[simp] theorem after_advance (count : Nat) (cursor : Cursor) :
    (cursor.advance count).after = cursor.after.drop count := by
  induction count generalizing cursor with
  | zero => rfl
  | succ count inductionHypothesis =>
      rw [advance, inductionHypothesis, after_next, List.drop_tail]

theorem advance_add (first second : Nat) (cursor : Cursor) :
    cursor.advance (first + second) = (cursor.advance first).advance second := by
  induction first generalizing cursor with
  | zero => rw [Nat.zero_add]; rfl
  | succ first inductionHypothesis =>
      rw [Nat.add_right_comm, advance, inductionHypothesis, advance]

/-- Advancing reads characters up to the end of the source. -/
theorem offset_advance (count : Nat) (cursor : Cursor) :
    (cursor.advance count).offset = min (cursor.offset + count) cursor.length := by
  have before := cursor.offset_add_rest
  have behind := (cursor.advance count).offset_add_rest
  rw [rest_advance, length_advance, List.length_drop] at behind
  omega

theorem exhausted_advance (count : Nat) (exhausted : cursor.exhausted) :
    (cursor.advance count).exhausted := by
  rw [exhausted_iff, rest_advance, exhausted_iff.mp exhausted, List.drop_nil]

theorem exists_advance_readDelimited (cursor : Cursor) :
    ∃ count, cursor.readDelimited.2 = cursor.advance count := by
  rw [readDelimited]
  split
  · exact ⟨_, rfl⟩
  · exact ⟨_, rfl⟩

theorem exists_advance_readIdentifier (keepPosition : Bool) (cursor : Cursor) :
    ∃ count, (cursor.readIdentifier keepPosition).2 = cursor.advance count := by
  rw [readIdentifier]
  split
  · exact ⟨0, rfl⟩
  · dsimp only
    split
    · exact ⟨_, rfl⟩
    · exact ⟨_, (advance_succ _).symm⟩

end Letterline.Cursor
