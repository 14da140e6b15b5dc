/-
Module: Letterline.Proofs.IndexedCursor
Purpose: A cursor as a position among all characters of its source, with every access checked.
Trusted boundary: none
Main exports:
  IndexedCursor, IndexedCursor.next?, IndexedCursor.readDelimited?,
  IndexedCursor.readIdentifier?, Cursor.indexed, Cursor.next?_indexed,
  Cursor.readDelimited?_indexed, Cursor.readIdentifier?_indexed
-/
import Letterline.Proofs.Advance

namespace Letterline

/-!
A cursor keeps what it has passed apart from what is ahead, so it cannot stand outside of its
source.  The same cursor can be kept as all characters of the source and a position among them.
Then there is something to get wrong: a character may be looked for where there is none, a number
may be subtracted from a smaller one, and a loop over positions may turn more often than there are
characters.  Here an operation that does so has no result.  Every operation turns out to have one,
and it is what the cursor gives.
-/

/-- A position among the characters of a source. -/
structure IndexedCursor where
  characters : List Char
  position : Nat
  /-- The last character has been stepped over. -/
  exhausted : Bool
deriving Repr, DecidableEq

namespace IndexedCursor

/-! ### Checked operations -/

/-- A difference, where it is not below zero. -/
def minus? (n m : Nat) : Option Nat :=
  if m ≤ n then some (n - m) else none

/-- The character at the position. -/
def current? (cursor : IndexedCursor) : Option Char :=
  cursor.characters[cursor.position]?

/-- Says whether the position is in front of the last one. -/
def hasNext? (cursor : IndexedCursor) : Option Bool := do
  let last ← minus? cursor.characters.length 1
  return decide (cursor.position < last)

/-- Goes one character on, or marks the cursor exhausted on the last one, and looks at the
character there. -/
def next? (cursor : IndexedCursor) : Option (Char × IndexedCursor) := do
  let moved :=
    if ← cursor.hasNext? then { cursor with position := cursor.position + 1 }
    else { cursor with exhausted := true }
  return (← moved.current?, moved)

/-- The character behind the position, or the one there if it is the last. -/
def peek? (cursor : IndexedCursor) : Option Char := do
  if ← cursor.hasNext? then cursor.characters[cursor.position + 1]? else cursor.current?

/-- The character in front of the position, or the first one: this subtraction stops at zero. -/
def previous? (cursor : IndexedCursor) : Option Char :=
  cursor.characters[cursor.position - 1]?

/-- The number of characters that have been read. -/
def offset (cursor : IndexedCursor) : Nat :=
  cursor.position + cursor.exhausted.toNat

/-- Says whether the character at the position escapes the next one in a literal that opens at
`start`. -/
def escapes? (start : Nat) (cursor : IndexedCursor) : Option Bool := do
  if start < cursor.position then
    if (← cursor.current?) = Cursor.escapeLetter then
      return (← cursor.previous?) != Cursor.escapeLetter
    else
      return false
  else
    return false

/-- Reads on in a literal that opens at `start`, up to its closing delimiter, in so many turns. -/
def readContents? (start : Nat) (delimiter : Char) :
    (turns : Nat) → (contents : List Char) → IndexedCursor →
      Option (Option (List Char) × IndexedCursor)
  | 0, _, _ => none
  | turns + 1, contents, cursor => do
      if ← cursor.hasNext? then
        if (← cursor.peek?) = delimiter ∧ (← cursor.escapes? start) = false then
          let (_, there) ← cursor.next?
          return (some contents, there)
        else
          let (c, there) ← cursor.next?
          readContents? start delimiter turns (contents ++ [c]) there
      else
        return (none, cursor)

/-- How often a loop over a source can turn: once for each character, and once at the end. -/
def turns (cursor : IndexedCursor) : Nat :=
  cursor.characters.length + 1

/-- Reads the contents of the literal that opens at the position. -/
def readDelimited? (cursor : IndexedCursor) :
    Option (Option (List Char) × IndexedCursor) := do
  readContents? cursor.position (← cursor.current?) cursor.turns [] cursor

/-- Reads on in a name, in so many turns. -/
def readName? : (turns : Nat) → (name : List Char) → IndexedCursor →
    Option (List Char × IndexedCursor)
  | 0, _, _ => none
  | turns + 1, name, cursor => do
      let c ← cursor.current?
      if Cursor.isNameChar c && !cursor.exhausted then
        let (_, there) ← cursor.next?
        readName? turns (name ++ [c.toLower]) there
      else
        return (name, cursor)

/-- Reads a name and stops behind it, or goes back to its last character. -/
def readIdentifier? (keepPosition : Bool) (cursor : IndexedCursor) :
    Option (String × IndexedCursor) := do
  let (name, there) ← readName? cursor.turns [] cursor
  if keepPosition && !there.exhausted && !name.isEmpty then
    let position ← minus? there.position 1
    return (String.ofList name, { there with position })
  else
    return (String.ofList name, there)

end IndexedCursor

/-! ### What a cursor gives -/

namespace Cursor

variable {cursor : Cursor} {c : Char} {rest : List Char}

/-- The cursor as a position among all characters of its source. -/
def indexed (cursor : Cursor) : IndexedCursor :=
  ⟨cursor.characters, cursor.index, cursor.exhausted⟩

theorem getElem?_characters (cursor : Cursor) (ahead : Nat) :
    cursor.characters[cursor.index + ahead]? = (cursor.current :: cursor.after)[ahead]? := by
  rw [characters, index, ← List.length_reverse, List.getElem?_append_right (Nat.le_add_right _ _),
    Nat.add_sub_cancel_left]

/-! ### Single characters -/

@[simp] theorem current?_indexed (cursor : Cursor) :
    cursor.indexed.current? = some cursor.current :=
  cursor.getElem?_characters 0

@[simp] theorem hasNext?_indexed (cursor : Cursor) :
    cursor.indexed.hasNext? = some cursor.hasNext := by
  have length : cursor.indexed.characters.length = cursor.index + 1 + cursor.after.length :=
    cursor.length_characters
  have inFront : decide (cursor.index < cursor.index + cursor.after.length) = cursor.hasNext := by
    cases ahead : cursor.after <;> simp [hasNext, ahead]
  rw [IndexedCursor.hasNext?, IndexedCursor.minus?, length, if_pos (by omega), ← inFront,
    Nat.add_right_comm, Nat.add_sub_cancel]
  rfl

/-- The position goes on or stays as the cursor does. -/
theorem moved_indexed (cursor : Cursor) :
    (if cursor.hasNext then { cursor.indexed with position := cursor.indexed.position + 1 }
      else { cursor.indexed with exhausted := true }) = cursor.next.indexed := by
  rcases ahead : cursor.after with _ | ⟨c, rest⟩
  · simp [hasNext, ahead, next_of_after_nil ahead, indexed, characters, index]
  · simp [hasNext, ahead, next_of_after_cons ahead, indexed, characters, index,
      going_of_after_cons ahead]

@[simp] theorem next?_indexed (cursor : Cursor) :
    cursor.indexed.next? = some (cursor.next.current, cursor.next.indexed) := by
  simp only [IndexedCursor.next?, hasNext?_indexed, Option.bind_eq_bind, Option.bind_some,
    moved_indexed, current?_indexed]
  rfl

@[simp] theorem peek?_indexed (cursor : Cursor) :
    cursor.indexed.peek? = some cursor.peek := by
  have behind : cursor.indexed.characters[cursor.indexed.position + 1]? = cursor.after[0]? :=
    cursor.getElem?_characters 1
  simp only [IndexedCursor.peek?, hasNext?_indexed, Option.bind_eq_bind, Option.bind_some, behind,
    current?_indexed]
  cases ahead : cursor.after <;> simp [hasNext, peek, ahead]

@[simp] theorem previous?_indexed (cursor : Cursor) :
    cursor.indexed.previous? = some cursor.previous := by
  rw [IndexedCursor.previous?, indexed, characters, index, previous]
  cases cursor.before with
  | nil => rfl
  | cons c earlier => simp

/-! ### Literals -/

theorem escapes?_indexed (start : Nat) (cursor : Cursor) :
    cursor.indexed.escapes? start = some (decide (start < cursor.index) &&
      (cursor.current == escapeLetter && cursor.previous != escapeLetter)) := by
  simp only [IndexedCursor.escapes?, current?_indexed, previous?_indexed, Option.bind_eq_bind,
    Option.bind_some]
  change (if start < cursor.index then _ else _) = _
  split
  · next behind =>
      split
      · next escape => simp [behind, escape]
      · next other => simp [behind, other]
  · next atStart => simp [atStart]

/-- The rest of a literal is what the text ahead is split at, if whether the next character is
escaped is as it was found. -/
theorem readContents?_indexed (start : Nat) (delimiter : Char) (turns : Nat) (contents : List Char)
    (cursor : Cursor) (enough : cursor.after.length < turns) (opened : start ≤ cursor.index)
    (escaping : Bool)
    (found : (decide (start < cursor.index) &&
      (cursor.current == escapeLetter && cursor.previous != escapeLetter)) = escaping) :
    cursor.indexed.readContents? start delimiter turns contents =
      some (match splitLiteral delimiter escaping cursor.current cursor.after with
        | some (more, _) =>
            (some (contents ++ more), (cursor.advance (more.length + 1)).indexed)
        | none => (none, (cursor.advance cursor.after.length).indexed)) := by
  induction turns generalizing cursor contents escaping with
  | zero => exact absurd enough (Nat.not_lt_zero _)
  | succ turns inductionHypothesis =>
      rw [IndexedCursor.readContents?]
      rcases ahead : cursor.after with _ | ⟨c, rest⟩
      · have last : cursor.hasNext = false := by simp [hasNext, ahead]
        rw [hasNext?_indexed, last]
        rfl
      have more : cursor.hasNext = true := by simp [hasNext, ahead]
      have peeked : cursor.peek = c := by simp [peek, ahead]
      simp only [hasNext?_indexed, more, peek?_indexed, peeked, escapes?_indexed, found,
        next?_indexed, Option.bind_eq_bind, Option.bind_some, splitLiteral, if_true]
      by_cases closes : c = delimiter ∧ escaping = false
      · rw [if_pos closes, if_pos closes]
        simp [advance]
      · rw [if_neg closes, if_neg closes]
        have step := next_of_after_cons ahead
        have current : cursor.next.current = c := by rw [step]
        have position : cursor.next.index = cursor.index + 1 := by rw [step]; rfl
        have previous : cursor.next.previous = cursor.current := by rw [step]; rfl
        have after : cursor.next.after = rest := by rw [step]
        have enough : cursor.next.after.length < turns := by
          rw [ahead, List.length_cons] at enough
          rw [after]
          omega
        rw [inductionHypothesis (contents ++ [cursor.next.current]) cursor.next enough (by omega)
          (c == escapeLetter && cursor.current != escapeLetter) (by
            rw [position, current, previous, decide_eq_true (by omega), Bool.true_and]),
          current, after]
        cases splitLiteral delimiter (c == escapeLetter && cursor.current != escapeLetter) c rest
          <;> simp [advance]

/-- A loop can turn more often than characters are left. -/
theorem turns_indexed (cursor : Cursor) :
    cursor.indexed.turns = cursor.index + 1 + cursor.after.length + 1 :=
  congrArg (· + 1) cursor.length_characters

theorem readDelimited?_indexed (cursor : Cursor) :
    cursor.indexed.readDelimited? =
      some (cursor.readDelimited.1, cursor.readDelimited.2.indexed) := by
  have atStart : (decide (cursor.index < cursor.index) &&
      (cursor.current == escapeLetter && cursor.previous != escapeLetter)) = false := by simp
  rw [IndexedCursor.readDelimited?, current?_indexed, Option.bind_eq_bind, Option.bind_some]
  have enough : cursor.after.length < cursor.indexed.turns := by
    rw [turns_indexed]
    omega
  refine (readContents?_indexed cursor.index cursor.current _ [] cursor enough (Nat.le_refl _) false
    atStart).trans ?_
  rw [readDelimited]
  cases splitLiteral cursor.current false cursor.current cursor.after <;> rfl

/-! ### Names -/

theorem readName?_of_stops (turns : Nat) (name : List Char) (cursor : Cursor)
    (stops : (isNameChar cursor.current && !cursor.exhausted) = false) :
    cursor.indexed.readName? (turns + 1) name = some (name, cursor.indexed) := by
  simp only [IndexedCursor.readName?, current?_indexed, Option.bind_eq_bind, Option.bind_some]
  change (if (isNameChar cursor.current && !cursor.exhausted) = true then _ else _) = _
  rw [stops]
  rfl

theorem readName?_of_goes (turns : Nat) (name : List Char) (cursor : Cursor)
    (goes : (isNameChar cursor.current && !cursor.exhausted) = true) :
    cursor.indexed.readName? (turns + 1) name =
      cursor.next.indexed.readName? turns (name ++ [cursor.current.toLower]) := by
  simp only [IndexedCursor.readName?, current?_indexed, Option.bind_eq_bind, Option.bind_some,
    next?_indexed]
  change (if (isNameChar cursor.current && !cursor.exhausted) = true then _ else _) = _
  rw [if_pos goes]

/-- A name is read on as far as it goes. -/
theorem readName?_indexed (turns : Nat) (name : List Char) (cursor : Cursor)
    (enough : cursor.after.length < turns)
    (goes : (isNameChar cursor.current && !cursor.exhausted) = true) :
    cursor.indexed.readName? (turns + 1) name =
      some (name ++ (cursor.current :: cursor.after.takeWhile isNameChar).map Char.toLower,
        (cursor.advance (cursor.after.takeWhile isNameChar).length).next.indexed) := by
  rw [readName?_of_goes turns name cursor goes]
  induction turns generalizing cursor name with
  | zero => exact absurd enough (Nat.not_lt_zero _)
  | succ turns inductionHypothesis =>
      rcases ahead : cursor.after with _ | ⟨c, rest⟩
      · refine (readName?_of_stops _ _ _ ?_).trans rfl
        rw [next_of_after_nil ahead, Bool.not_true, Bool.and_false]
      have step := next_of_after_cons ahead
      have current : cursor.next.current = c := by rw [step]
      have going : cursor.next.exhausted = false := by rw [step]
      have after : cursor.next.after = rest := by rw [step]
      cases nameChar : isNameChar c with
      | false =>
          refine (readName?_of_stops _ _ _ ?_).trans ?_
          · rw [current, nameChar, Bool.false_and]
          · simp [nameChar, advance]
      | true =>
          have goesOn : (isNameChar cursor.next.current && !cursor.next.exhausted) = true := by
            rw [current, nameChar, going]
            rfl
          have enough : cursor.next.after.length < turns := by
            rw [ahead, List.length_cons] at enough
            rw [after]
            omega
          rw [readName?_of_goes _ _ _ goesOn, inductionHypothesis _ _ enough goesOn, current, after]
          simp [nameChar, advance]

/-- From behind a character that is not the last one can go back to it. -/
theorem stepBack_indexed (name : String) (more : cursor.hasNext) :
    (do
      let position ← IndexedCursor.minus? cursor.next.indexed.position 1
      return (name, { cursor.next.indexed with position })) = some (name, cursor.indexed) := by
  rcases ahead : cursor.after with _ | ⟨c, rest⟩
  · simp [hasNext, ahead] at more
  · have position : IndexedCursor.minus? cursor.next.indexed.position 1 = some cursor.index := by
      rw [next_of_after_cons ahead]
      rfl
    have exhausted : cursor.next.exhausted = cursor.exhausted := by
      rw [exhausted_next_eq, more, going_of_after_cons ahead]
      rfl
    rw [position]
    simp [indexed, exhausted]

theorem readIdentifier?_indexed (keepPosition : Bool) (cursor : Cursor) :
    cursor.indexed.readIdentifier? keepPosition =
      some ((cursor.readIdentifier keepPosition).1,
        (cursor.readIdentifier keepPosition).2.indexed) := by
  rw [IndexedCursor.readIdentifier?, readIdentifier]
  cases goes : isNameChar cursor.current && !cursor.exhausted with
  | false =>
      have stands : (cursor.exhausted || !isNameChar cursor.current) = true := by
        rw [← Bool.not_not cursor.exhausted, ← Bool.not_and, Bool.and_comm, goes]
        rfl
      rw [IndexedCursor.turns, readName?_of_stops _ [] cursor goes, if_pos stands]
      simp
  | true =>
      have reads : ¬(cursor.exhausted || !isNameChar cursor.current) = true := by
        rw [← Bool.not_not cursor.exhausted, ← Bool.not_and, Bool.and_comm, goes]
        exact Bool.false_ne_true
      have enough : cursor.after.length < cursor.index + 1 + cursor.after.length := by omega
      rw [turns_indexed, readName?_indexed _ [] cursor enough goes, if_neg reads]
      let last := cursor.advance (cursor.after.takeWhile isNameChar).length
      change (if keepPosition && !last.next.exhausted && true then _ else _) = some (_,
        (if keepPosition && last.hasNext then last else last.next).indexed)
      rw [Bool.and_true, exhausted_next_eq, Bool.not_not]
      cases back : keepPosition && last.hasNext with
      | false => rfl
      | true => exact stepBack_indexed _ (Bool.and_eq_true_iff.mp back).2

end Cursor

end Letterline
