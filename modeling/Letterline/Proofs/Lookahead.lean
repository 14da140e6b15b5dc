/-
Module: Letterline.Proofs.Lookahead
Purpose: Parsers that decide on a character when they come to it, and not before.
Trusted boundary: none
Main exports:
  ParseError.found?, ParseError.PlacedIn, Parser.Fails, Cursor.StandsIn, Fork, Fork.Mirrors,
  Parser.Local, Parser.Local.bind, Parser.Local.look, Parser.Local.of_fuel
-/
import Letterline.Proofs.Token

namespace Letterline

/-!
What a parser makes of the characters that it has read cannot depend on those that it has not.
To say so, two sources are laid side by side that begin alike.  A parser is local if it goes on
alike in both as long as it is in what they share.  All that it reads there, and every error that
it reports there, it reads and reports in both.

Sequences of local parsers are local, so this is shown of one parser after the other.  The errors
come along: each one points at a place of the source, and one that says what it found points at
no place that was left behind.

A parser has a twin for the other source.  The two are the same parser, except that each has the
fuel that its own source asks for.
-/

/-! ### Errors and their places -/

namespace ParseError

/-- The character that an error says it found. -/
def found? : ParseError → Option Char
  | .unexpected _ found _ => found
  | .unknownInstruction found _ => some found
  | .unknownValueType found _ => some found
  | _ => none

/-- An error points at a character of a source, at the one that it says it found, or behind a last
one where it says that something is missing. -/
inductive PlacedIn (source : List Char) : ParseError → Prop where
  | found {error : ParseError} {c : Char} (reports : error.found? = some c)
      (here : source[error.index]? = some c) : PlacedIn source error
  | inside {error : ParseError} (silent : error.found? = none)
      (here : error.index < source.length) : PlacedIn source error
  | atEnd (expected : Expectation) :
      PlacedIn source (.unexpected expected none source.length)
  | unclosed {mark : Nat} (opened : source[mark]? = some 't') :
      PlacedIn source (.unclosedBody (mark + 1))

namespace PlacedIn

variable {source : List Char} {error : ParseError}

theorem index_le (placed : error.PlacedIn source) : error.index ≤ source.length := by
  cases placed with
  | found reports here => exact Nat.le_of_lt (List.getElem?_eq_some_iff.mp here).1
  | inside silent here => exact Nat.le_of_lt here
  | atEnd expected => exact Nat.le_refl _
  | unclosed opened => exact (List.getElem?_eq_some_iff.mp opened).1

/-- Only two errors point behind the last character. -/
theorem of_index_eq (placed : error.PlacedIn source) (atEnd : error.index = source.length) :
    (∃ expected, error = .unexpected expected none source.length) ∨
      error = .unclosedBody source.length ∧ source.getLast? = some 't' := by
  cases placed with
  | found reports here =>
      exact absurd atEnd (Nat.ne_of_lt (List.getElem?_eq_some_iff.mp here).1)
  | inside silent here => exact absurd atEnd (Nat.ne_of_lt here)
  | atEnd expected => exact .inl ⟨expected, rfl⟩
  | unclosed opened =>
      rw [index] at atEnd
      rw [List.getLast?_eq_getElem?, ← atEnd]
      exact .inr ⟨rfl, opened⟩

theorem getElem?_index (placed : error.PlacedIn source) {c : Char}
    (reports : error.found? = some c) : source[error.index]? = some c := by
  cases placed with
  | found reported here => rw [← reports, reported, here]
  | inside silent here => rw [silent] at reports; cases reports
  | atEnd expected => cases reports
  | unclosed opened => cases reports

end PlacedIn

end ParseError

/-! ### Cursors in a source -/

namespace Cursor

/-- A cursor stands in a source: the rest of the source is what it has still to read. -/
structure StandsIn (source : List Char) (cursor : Cursor) : Prop where
  rest : cursor.rest = source.drop cursor.offset
  length : cursor.length = source.length

variable {source text : List Char} {cursor after : Cursor}

namespace StandsIn

theorem of_passes (stands : cursor.StandsIn source) (passes : cursor.Passes text after) :
    after.StandsIn source where
  rest := by
    rw [passes.offset, ← List.drop_drop, ← stands.rest, passes.rest, List.drop_left]
  length := passes.length.trans stands.length

theorem offset_of_end (stands : cursor.StandsIn source) (finished : cursor.rest = []) :
    cursor.offset = source.length := by
  have parts := cursor.offset_add_rest
  rw [stands.length, finished] at parts
  exact parts

/-- The current character stands at the offset. -/
theorem getElem?_offset (stands : cursor.StandsIn source) (going : ¬cursor.exhausted = true) :
    source[cursor.offset]? = some cursor.current := by
  rw [← List.head?_drop, ← stands.rest, rest_of_going going]
  rfl

theorem offset_lt (stands : cursor.StandsIn source) (going : ¬cursor.exhausted = true) :
    cursor.offset < source.length :=
  (List.getElem?_eq_some_iff.mp (stands.getElem?_offset going)).1

end StandsIn

/-- Behind the last character nothing moves any more. -/
theorem next_next_of_last (last : cursor.hasNext = false) : cursor.next.next = cursor.next := by
  have last : cursor.after = [] := by simpa [hasNext] using last
  have next_of_last {cursor : Cursor} (last : cursor.after = []) :
      cursor.next = { cursor with exhausted := true, last_of_exhausted := fun _ => last } := by
    rw [next]
    split
    · rfl
    · next some => rw [last] at some; cases some
  rw [next_of_last last, next_of_last]

/-- Stepping on from the last character of a name leads behind the name. -/
theorem readIdentifier_step (going : ¬cursor.exhausted = true)
    (nameChar : isNameChar cursor.current) :
    (cursor.readIdentifier true).1 = (cursor.readIdentifier false).1 ∧
      (cursor.readIdentifier true).2.next = (cursor.readIdentifier false).2 := by
  simp only [readIdentifier, going, nameChar]
  refine ⟨rfl, ?_⟩
  cases more : (cursor.advance (cursor.after.takeWhile isNameChar).length).hasNext with
  | true => rfl
  | false => simpa using next_next_of_last more

end Cursor

/-! ### Sources that begin alike -/

/-- Two sources that part behind a text that they share. -/
structure Fork where
  shared : List Char
  left : List Char
  right : List Char

namespace Fork

/-- The source whose errors are looked at. -/
def source (fork : Fork) : List Char :=
  fork.shared ++ fork.left

/-- The source that begins like it. -/
def other (fork : Fork) : List Char :=
  fork.shared ++ fork.right

/-- A cursor in the other source stands where one does in the first. -/
structure Mirrors (fork : Fork) (here there : Cursor) : Prop where
  stands : there.StandsIn fork.other
  offset : there.offset = here.offset

variable {fork : Fork} {here there : Cursor}

/-- What is left of the shared text lies in front of both cursors. -/
theorem Mirrors.rest_eq (mirrors : fork.Mirrors here there) (stands : here.StandsIn fork.source)
    (within : here.offset ≤ fork.shared.length) :
    here.rest = fork.shared.drop here.offset ++ fork.left ∧
      there.rest = fork.shared.drop here.offset ++ fork.right := by
  constructor
  · rw [stands.rest, source, List.drop_append_of_le_length within]
  · rw [mirrors.stands.rest, mirrors.offset, other, List.drop_append_of_le_length within]

/-- Inside the shared text, two cursors see the same character. -/
theorem Mirrors.view (mirrors : fork.Mirrors here there) (stands : here.StandsIn fork.source)
    (within : here.offset < fork.shared.length) :
    ∃ common, here.offset + (common.length + 1) = fork.shared.length ∧
      here.rest = here.current :: (common ++ fork.left) ∧
      there.rest = here.current :: (common ++ fork.right) := by
  obtain ⟨hereRest, thereRest⟩ := mirrors.rest_eq stands (Nat.le_of_lt within)
  rw [List.drop_eq_getElem_cons within, List.cons_append] at hereRest thereRest
  obtain ⟨-, current, -⟩ := Cursor.rest_eq_cons.mp hereRest
  rw [← current] at hereRest thereRest
  refine ⟨_, ?_, hereRest, thereRest⟩
  rw [List.length_drop]
  omega

/-- So the cursors are alike. -/
theorem Mirrors.alike (mirrors : fork.Mirrors here there) (stands : here.StandsIn fork.source)
    (within : here.offset < fork.shared.length) :
    there.exhausted = here.exhausted ∧ there.current = here.current ∧
      there.index = here.index := by
  obtain ⟨_, _, hereRest, thereRest⟩ := mirrors.view stands within
  obtain ⟨hereGoing, -, -⟩ := Cursor.rest_eq_cons.mp hereRest
  obtain ⟨thereGoing, current, -⟩ := Cursor.rest_eq_cons.mp thereRest
  refine ⟨by rw [hereGoing, thereGoing], current, ?_⟩
  rw [Cursor.index_eq_offset (Bool.eq_false_iff.mp hereGoing),
    Cursor.index_eq_offset (Bool.eq_false_iff.mp thereGoing), mirrors.offset]

theorem Mirrors.of_passes (mirrors : fork.Mirrors here there) {text : List Char}
    {after reached : Cursor} (passes : here.Passes text after)
    (alike : there.Passes text reached) : fork.Mirrors after reached where
  stands := mirrors.stands.of_passes alike
  offset := by rw [alike.offset, passes.offset, mirrors.offset]

end Fork

/-! ### Failures -/

namespace Parser

variable {α β : Type} {cursor : Cursor} {error : ParseError}

/-- A parser fails from a cursor with an error. -/
def Fails (parser : Parser α) (cursor : Cursor) (error : ParseError) : Prop :=
  ∃ stopped, parser cursor = .error error stopped

@[simp] theorem fails_pure {value : α} : ¬(pure value : Parser α).Fails cursor error := by
  rintro ⟨_, impossible⟩
  cases impossible

@[simp] theorem fails_step : ¬step.Fails cursor error := by
  rintro ⟨_, impossible⟩
  cases impossible

@[simp] theorem fails_name {keepPosition : Bool} : ¬(name keepPosition).Fails cursor error := by
  rintro ⟨_, impossible⟩
  cases impossible

@[simp] theorem fails_throw {thrown : ParseError} :
    (throw thrown : Parser α).Fails cursor error ↔ thrown = error := by
  constructor
  · rintro ⟨_, same⟩
    cases same
    rfl
  · rintro rfl
    exact ⟨cursor, rfl⟩

/-- A sequence fails in its first part or behind it. -/
@[simp] theorem fails_bind {first : Parser α} {second : α → Parser β} :
    (first >>= second).Fails cursor error ↔
      first.Fails cursor error ∨
        ∃ value middle, first.Yields cursor value middle ∧ (second value).Fails middle error := by
  simp only [Fails, Yields, bind, EStateM.bind]
  split
  · next value middle done => simp [done, and_assoc]
  · next reported stopped failed => simp [failed]

/-- A literal fails only if its delimiter does not come again. -/
theorem error_of_literalContents (failed : literalContents.Fails cursor error) :
    error = .unterminatedLiteral cursor.current cursor.index := by
  rcases fails_bind.mp failed with ⟨_, impossible⟩ | ⟨found, middle, ran, failedBehind⟩
  · cases impossible
  · obtain ⟨rfl, rfl⟩ := yields_cursor.mp ran
    rcases fails_bind.mp failedBehind with ⟨_, impossible⟩ | ⟨_, _, -, failedLast⟩
    · cases impossible
    · split at failedLast
      · exact (fails_pure failedLast).elim
      · exact (fails_throw.mp failedLast).symm

/-! ### Local parsers -/

/-- Two parsers go on alike from a cursor in the one source and its mirror in the other, as long
as they are in what the sources share.  In the first source, errors are placed, and those that say
what they found point at nothing before the cursor. -/
structure Local (fork : Fork) (parser twin : Parser α) (here : Cursor) : Prop where
  passes {result : α} {after : Cursor} (ran : parser.Yields here result after) :
    ∃ text, here.Passes text after
  placed {error : ParseError} (failed : parser.Fails here error) : error.PlacedIn fork.source
  ahead {error : ParseError} {c : Char} (failed : parser.Fails here error)
    (reports : error.found? = some c) : here.offset ≤ error.index
  yields {result : α} {after there : Cursor} (ran : parser.Yields here result after)
    (within : after.offset < fork.shared.length) (mirrors : fork.Mirrors here there) :
    ∃ reached, twin.Yields there result reached ∧ fork.Mirrors after reached
  fails {error : ParseError} {c : Char} {there : Cursor} (failed : parser.Fails here error)
    (reports : error.found? = some c) (within : error.index < fork.shared.length)
    (mirrors : fork.Mirrors here there) : twin.Fails there error

namespace Local

variable {fork : Fork} {here : Cursor} {parser twin : Parser α}

theorem pure (value : α) : Local fork (pure value) (pure value) here where
  passes ran := by
    obtain ⟨-, rfl⟩ := yields_pure.mp ran
    exact ⟨[], .refl here⟩
  placed failed := (fails_pure failed).elim
  ahead failed := (fails_pure failed).elim
  yields ran _ mirrors := by
    obtain ⟨rfl, rfl⟩ := yields_pure.mp ran
    exact ⟨_, yields_pure.mpr ⟨rfl, rfl⟩, mirrors⟩
  fails failed := (fails_pure failed).elim

/-- An error is thrown alike if it is placed. -/
theorem throw {error : ParseError} (placed : error.PlacedIn fork.source)
    (ahead : ∀ c, error.found? = some c → here.offset ≤ error.index) :
    Local fork (throw error : Parser α) (throw error) here where
  passes ran := (yields_throw ran).elim
  placed failed := fails_throw.mp failed ▸ placed
  ahead {_ c} failed reports := by
    cases fails_throw.mp failed
    exact ahead c reports
  yields ran := (yields_throw ran).elim
  fails failed _ _ _ := fails_throw.mpr (fails_throw.mp failed)

/-- So is one that does not say what it found. -/
theorem throw_silent {error : ParseError} (placed : error.PlacedIn fork.source)
    (silent : error.found? = none) :
    Local fork (MonadExcept.throw error : Parser α) (MonadExcept.throw error) here :=
  throw placed fun c reports => by
    rw [silent] at reports
    cases reports

/-- So is one that says what stands here. -/
theorem throw_found {error : ParseError} (stands : here.StandsIn fork.source)
    (going : ¬here.exhausted = true) (reports : error.found? = some here.current)
    (place : error.index = here.offset) :
    Local fork (MonadExcept.throw error : Parser α) (MonadExcept.throw error) here := by
  refine throw (.found reports ?_) fun _ _ => Nat.le_of_eq place.symm
  rw [place]
  exact stands.getElem?_offset going

/-- Local parsers in sequence are local. -/
theorem bind {next nextTwin : α → Parser β} (stands : here.StandsIn fork.source)
    (first : Local fork parser twin here)
    (second : ∀ result after text, parser.Yields here result after → here.Passes text after →
      after.StandsIn fork.source → Local fork (next result) (nextTwin result) after) :
    Local fork (parser >>= next) (twin >>= nextTwin) here where
  passes ran := by
    obtain ⟨result, middle, ranFirst, ranSecond⟩ := yields_bind.mp ran
    obtain ⟨text, passes⟩ := first.passes ranFirst
    obtain ⟨more, passesMore⟩ :=
      (second result middle text ranFirst passes (stands.of_passes passes)).passes ranSecond
    exact ⟨text ++ more, passes.trans passesMore⟩
  placed failed := by
    rcases fails_bind.mp failed with failedFirst | ⟨result, middle, ranFirst, failedSecond⟩
    · exact first.placed failedFirst
    · obtain ⟨text, passes⟩ := first.passes ranFirst
      exact (second result middle text ranFirst passes (stands.of_passes passes)).placed
        failedSecond
  ahead failed reports := by
    rcases fails_bind.mp failed with failedFirst | ⟨result, middle, ranFirst, failedSecond⟩
    · exact first.ahead failedFirst reports
    · obtain ⟨text, passes⟩ := first.passes ranFirst
      have ahead := (second result middle text ranFirst passes
        (stands.of_passes passes)).ahead failedSecond reports
      have further := passes.offset
      omega
  yields ran within mirrors := by
    obtain ⟨result, middle, ranFirst, ranSecond⟩ := yields_bind.mp ran
    obtain ⟨text, passes⟩ := first.passes ranFirst
    have goesOn := second result middle text ranFirst passes (stands.of_passes passes)
    obtain ⟨more, passesMore⟩ := goesOn.passes ranSecond
    have further := passesMore.offset
    obtain ⟨reached, twinFirst, mirrorsMiddle⟩ := first.yields ranFirst (by omega) mirrors
    obtain ⟨last, twinSecond, mirrorsLast⟩ := goesOn.yields ranSecond within mirrorsMiddle
    exact ⟨last, yields_bind.mpr ⟨result, reached, twinFirst, twinSecond⟩, mirrorsLast⟩
  fails failed reports within mirrors := by
    rcases fails_bind.mp failed with failedFirst | ⟨result, middle, ranFirst, failedSecond⟩
    · exact fails_bind.mpr (.inl (first.fails failedFirst reports within mirrors))
    · obtain ⟨text, passes⟩ := first.passes ranFirst
      have goesOn := second result middle text ranFirst passes (stands.of_passes passes)
      -- the error is not behind `middle`, so `middle` is in what is shared
      have ahead := goesOn.ahead failedSecond reports
      obtain ⟨reached, twinFirst, mirrorsMiddle⟩ := first.yields ranFirst (by omega) mirrors
      exact fails_bind.mpr (.inr ⟨result, reached, twinFirst,
        goesOn.fails failedSecond reports within mirrorsMiddle⟩)

/-- So they are if the second one is local wherever the cursor has come to. -/
theorem andThen {next nextTwin : α → Parser β} (stands : here.StandsIn fork.source)
    (first : Local fork parser twin here)
    (second : ∀ result {after : Cursor}, after.StandsIn fork.source →
      Local fork (next result) (nextTwin result) after) :
    Local fork (parser >>= next) (twin >>= nextTwin) here :=
  .bind stands first fun result _ _ _ _ standsAfter => second result standsAfter

/-- Nothing comes behind an error. -/
theorem throw_bind {error : ParseError} {next nextTwin : α → Parser β}
    (isLocal : Local fork (MonadExcept.throw error : Parser β) (MonadExcept.throw error) here) :
    Local fork ((MonadExcept.throw error : Parser α) >>= next)
      ((MonadExcept.throw error : Parser α) >>= nextTwin) here :=
  isLocal

/-- Parsers that are equal where they run are local together. -/
theorem congr {other otherTwin : Parser α}
    (isLocal : Local fork parser twin here) (same : other here = parser here)
    (sameTwin : ∀ there, fork.Mirrors here there → here.offset < fork.shared.length →
      otherTwin there = twin there) : Local fork other otherTwin here := by
  have yieldsSame {result after} : other.Yields here result after ↔
      parser.Yields here result after := by rw [Yields, Yields, same]
  have failsSame {error} : other.Fails here error ↔ parser.Fails here error := by
    rw [Fails, Fails, same]
  refine ⟨fun ran => isLocal.passes (yieldsSame.mp ran),
    fun failed => isLocal.placed (failsSame.mp failed),
    fun failed => isLocal.ahead (failsSame.mp failed), fun ran within mirrors => ?_,
    fun failed reports within mirrors => ?_⟩
  · obtain ⟨text, passes⟩ := isLocal.passes (yieldsSame.mp ran)
    have further := passes.offset
    obtain ⟨reached, ranTwin, mirrorsAfter⟩ := isLocal.yields (yieldsSame.mp ran) within mirrors
    exact ⟨reached, (sameTwin _ mirrors (by omega)).trans ranTwin, mirrorsAfter⟩
  · have ahead := isLocal.ahead (failsSame.mp failed) reports
    rw [Fails, sameTwin _ mirrors (by omega)]
    exact isLocal.fails (failsSame.mp failed) reports within mirrors

/-- Looking at the cursor is local if only what both cursors agree on is looked at. -/
theorem look {next nextTwin : Cursor → Parser α} (stands : here.StandsIn fork.source)
    (isLocal : Local fork (next here) (nextTwin here) here)
    (uniform : ∀ there : Cursor, there.exhausted = here.exhausted →
      there.current = here.current → there.index = here.index → there.offset = here.offset →
        nextTwin there = nextTwin here) :
    Local fork (Parser.cursor >>= next) (Parser.cursor >>= nextTwin) here := by
  refine isLocal.congr rfl fun there mirrors within => ?_
  obtain ⟨exhausted, current, index⟩ := mirrors.alike stands within
  change nextTwin there there = _
  rw [uniform there exhausted current index mirrors.offset]

/-- Where nothing is shared any more, the parser of the other source does not matter. -/
theorem replace {other : Parser α} (isLocal : Local fork parser twin here)
    (parted : fork.shared.length ≤ here.offset) : Local fork parser other here :=
  isLocal.congr rfl fun _ _ within => by omega

theorem step (stands : here.StandsIn fork.source) : Local fork step step here where
  passes ran := by
    cases yields_step.mp ran
    cases rest : here.rest with
    | nil => exact ⟨[], .next_of_end rest⟩
    | cons c tail => exact ⟨[c], .next rest⟩
  placed failed := (fails_step failed).elim
  ahead failed := (fails_step failed).elim
  yields {_ after there} ran within mirrors := by
    cases yields_step.mp ran
    have before : here.offset < fork.shared.length := by
      cases rest : here.rest with
      | nil =>
          have same := (Cursor.Passes.next_of_end rest).offset
          rw [List.length_nil, Nat.add_zero] at same
          exact same ▸ within
      | cons c tail =>
          have further := (Cursor.Passes.next rest).offset
          omega
    obtain ⟨_, _, hereRest, thereRest⟩ := mirrors.view stands before
    exact ⟨there.next, yields_step.mpr rfl, mirrors.of_passes (.next hereRest) (.next thereRest)⟩
  fails failed := (fails_step failed).elim

/-- What is found where something else was expected is what stands here. -/
theorem unexpected (expected : Expectation) (stands : here.StandsIn fork.source) :
    Local fork (Parser.unexpected expected : Parser α) (Parser.unexpected expected) here := by
  refine .look stands ?_ fun _ exhausted current _ offset => by
    simp only [exhausted, current, offset]
  by_cases exhausted : here.exhausted = true
  · rw [if_pos exhausted, stands.offset_of_end (Cursor.exhausted_iff.mp exhausted)]
    exact .throw_silent (.atEnd expected) rfl
  · rw [if_neg exhausted]
    exact .throw_found stands exhausted rfl rfl

theorem expect (mark : Char) (expected : Expectation) (stands : here.StandsIn fork.source) :
    Local fork (expect mark expected) (expect mark expected) here := by
  refine .look stands ?_ fun _ exhausted current _ _ => by simp only [exhausted, current]
  split
  · exact unexpected expected stands
  · exact step stands

/-- A name ends where another character comes, so that character has been looked at. -/
theorem name (stands : here.StandsIn fork.source) (going : ¬here.exhausted = true)
    (nameChar : Cursor.isNameChar here.current) :
    Local fork (name false) (name false) here where
  passes ran := by
    obtain ⟨-, rfl⟩ := yields_name.mp ran
    exact ⟨_, (Cursor.readIdentifier_passes false (Cursor.rest_of_going going) nameChar).2⟩
  placed failed := (fails_name failed).elim
  ahead failed := (fails_name failed).elim
  yields {_ _ there} ran within mirrors := by
    obtain ⟨rfl, rfl⟩ := yields_name.mp ran
    have further := (Cursor.readIdentifier_passes false (Cursor.rest_of_going going)
      nameChar).2.offset
    obtain ⟨common, length, hereRest, thereRest⟩ := mirrors.view stands (by
      simp only [Bool.false_eq_true, if_false] at further
      omega)
    obtain ⟨read, passes⟩ := Cursor.readIdentifier_passes false hereRest nameChar
    obtain ⟨readThere, passesThere⟩ := Cursor.readIdentifier_passes false thereRest nameChar
    -- a name that took all that is shared would have led the cursor out of it
    have ends : (common.takeWhile Cursor.isNameChar).length ≠ common.length := by
      intro whole
      have further := passes.offset
      simp only [Bool.false_eq_true, if_false, List.takeWhile_append, if_pos whole,
        List.length_cons, List.length_append] at further
      omega
    rw [List.takeWhile_append, if_neg ends] at read passes readThere passesThere
    exact ⟨_, yields_name.mpr ⟨readThere.trans read.symm, rfl⟩,
      mirrors.of_passes passes passesThere⟩
  fails failed := (fails_name failed).elim

/-- So it does not matter whether the cursor is to stop on its last character and steps on. -/
theorem name_step {next : String → Parser α} (isLocal : Local fork
      (Parser.name false >>= next) (Parser.name false >>= next) here)
    (stands : here.StandsIn fork.source) (going : ¬here.exhausted = true)
    (nameChar : Cursor.isNameChar here.current) :
    Local fork (Parser.name true >>= fun name => Parser.step >>= fun _ => next name)
      (Parser.name true >>= fun name => Parser.step >>= fun _ => next name) here := by
  have same {cursor : Cursor} (going : ¬cursor.exhausted = true)
      (nameChar : Cursor.isNameChar cursor.current) :
      (Parser.name true >>= fun name => Parser.step >>= fun _ => next name) cursor =
        (Parser.name false >>= next) cursor := by
    obtain ⟨read, behind⟩ := Cursor.readIdentifier_step going nameChar
    change next (cursor.readIdentifier true).1 (cursor.readIdentifier true).2.next =
      next (cursor.readIdentifier false).1 (cursor.readIdentifier false).2
    rw [read, behind]
  refine isLocal.congr (same going nameChar) fun there mirrors within => ?_
  obtain ⟨exhausted, current, -⟩ := mirrors.alike stands within
  exact same (exhausted ▸ going) (current ▸ nameChar)

/-- A literal ends with its closing delimiter, and what comes behind is not looked at. -/
theorem literalContents (stands : here.StandsIn fork.source) (going : ¬here.exhausted = true)
    (ordinary : here.current ≠ Cursor.escapeLetter) :
    Local fork literalContents literalContents here where
  passes ran := by
    have opens := Cursor.rest_of_going going
    obtain ⟨contents, rest, split, -, -, rfl⟩ :=
      (yields_literalContents opens ordinary).mp ran
    exact ⟨here.current :: contents, .advance (by rw [opens, split]; rfl)⟩
  placed failed := by
    rw [error_of_literalContents failed]
    refine .inside rfl ?_
    rw [ParseError.index, Cursor.index_eq_offset going]
    exact stands.offset_lt going
  ahead failed reports := by
    rw [error_of_literalContents failed] at reports
    cases reports
  yields {_ _ there} ran within mirrors := by
    have opens := Cursor.rest_of_going going
    obtain ⟨contents, rest, split, delimited, rfl, rfl⟩ :=
      (yields_literalContents opens ordinary).mp ran
    have passes : here.Passes (here.current :: contents)
        (here.advance (contents.length + 1)) := .advance (by rw [opens, split]; rfl)
    have further := passes.offset
    rw [List.length_cons] at further
    obtain ⟨common, length, hereRest, thereRest⟩ := mirrors.view stands (by omega)
    have parts : common ++ fork.left = contents ++ here.current :: rest := by
      rw [← split]
      exact (Cursor.rest_eq_cons.mp hereRest).2.2.symm
    -- the closing delimiter is in what is shared
    rcases List.append_eq_append_iff.mp parts with ⟨inside, rfl, -⟩ | ⟨behind, rfl, closes⟩
    · rw [List.length_append] at further within
      omega
    · cases behind with
      | nil =>
          rw [List.append_nil] at length
          omega
      | cons c more =>
          obtain ⟨rfl, -⟩ := List.cons.inj closes
          have split : contents ++ here.current :: more ++ fork.right =
              contents ++ here.current :: (more ++ fork.right) := by
            rw [List.append_assoc, List.cons_append]
          refine ⟨_, (yields_literalContents thereRest ordinary).mpr
            ⟨contents, more ++ fork.right, split, delimited, rfl, rfl⟩, ?_⟩
          exact mirrors.of_passes passes (.advance (by rw [thereRest, split]; rfl))
  fails failed reports := by
    rw [error_of_literalContents failed] at reports
    cases reports

/-! ### Fuel -/

/-- The fuel of a parser and that of its twin suffice for what is left of the two sources. -/
structure Room (fork : Fork) (fuel twinFuel : Nat) (here : Cursor) : Prop where
  enough : here.rest.length ≤ fuel
  twinEnough : fork.other.length ≤ twinFuel + here.offset

theorem Room.of_passes {fuel twinFuel : Nat} {text : List Char} {after : Cursor}
    (room : Room fork fuel twinFuel here) (passes : here.Passes text after) :
    Room fork fuel twinFuel after where
  enough := by
    have length := passes.rest_length
    have enough := room.enough
    omega
  twinEnough := by
    have further := passes.offset
    have enough := room.twinEnough
    omega

/-- A character that is read leaves room for less fuel. -/
theorem Room.of_passes_cons {fuel twinFuel : Nat} {c : Char} {text : List Char} {after : Cursor}
    (room : Room fork (fuel + 1) (twinFuel + 1) here) (passes : here.Passes (c :: text) after) :
    Room fork fuel twinFuel after where
  enough := by
    have length := passes.rest_length
    have enough := room.enough
    rw [List.length_cons] at length
    omega
  twinEnough := by
    have further := passes.offset
    have enough := room.twinEnough
    rw [List.length_cons] at further
    omega

/-- What comes behind a parser has the room that it had. -/
theorem andThenRoom {fuel twinFuel : Nat} {next nextTwin : α → Parser β}
    (stands : here.StandsIn fork.source) (room : Room fork fuel twinFuel here)
    (first : Local fork parser twin here)
    (second : ∀ result {after : Cursor}, after.StandsIn fork.source →
      Room fork fuel twinFuel after → Local fork (next result) (nextTwin result) after) :
    Local fork (parser >>= next) (twin >>= nextTwin) here :=
  .bind stands first fun result _ _ _ passes standsAfter =>
    second result standsAfter (room.of_passes passes)

/-- Fuel for what remains of each source suffices. -/
theorem look_remaining (family twinFamily : Nat → Parser α)
    (isLocal : ∀ {fuel twinFuel : Nat}, Room fork fuel twinFuel here →
      Local fork (family fuel) (twinFamily twinFuel) here) :
    Local fork (Parser.cursor >>= fun here => family here.remaining)
      (Parser.cursor >>= fun there => twinFamily there.remaining) here := by
  have room : Room fork here.remaining (fork.other.length - here.offset) here :=
    ⟨Nat.le_of_eq Cursor.remaining_eq.symm, by omega⟩
  refine (isLocal room).congr rfl fun there mirrors _ => ?_
  have parts := there.offset_add_rest
  rw [mirrors.stands.length, mirrors.offset, ← Cursor.remaining_eq] at parts
  have remaining : there.remaining = fork.other.length - here.offset := by omega
  change twinFamily there.remaining there = _
  rw [remaining]

/-- So it does if something comes behind. -/
theorem look_remaining_bind {family twinFamily : Nat → Parser α} {next : α → Parser β}
    (stands : here.StandsIn fork.source)
    (first : ∀ {fuel twinFuel : Nat}, Room fork fuel twinFuel here →
      Local fork (family fuel) (twinFamily twinFuel) here)
    (second : ∀ result {after : Cursor}, after.StandsIn fork.source →
      Local fork (next result) (next result) after) :
    Local fork (Parser.cursor >>= fun here => family here.remaining >>= next)
      (Parser.cursor >>= fun there => twinFamily there.remaining >>= next) here :=
  look_remaining (fun fuel => family fuel >>= next) (fun fuel => twinFamily fuel >>= next)
    fun room => andThen stands (first room) second

/-- A parser that is called again with less fuel is local if it is without fuel at the end of the
source, and if it is with more fuel when it is with less. -/
theorem of_fuel {ι : Type} (Holds : ι → Prop) (family : Nat → ι → Parser α)
    (atEnd : ∀ (index : ι) {here : Cursor}, Holds index → here.StandsIn fork.source →
      here.rest = [] → Local fork (family 0 index) (family 0 index) here)
    (onward : ∀ {fuel twinFuel : Nat},
      (∀ (index : ι) {here : Cursor}, Holds index → here.StandsIn fork.source →
        Room fork fuel twinFuel here →
          Local fork (family fuel index) (family twinFuel index) here) →
      ∀ (index : ι) {here : Cursor}, Holds index → here.StandsIn fork.source →
        Room fork (fuel + 1) (twinFuel + 1) here →
          Local fork (family (fuel + 1) index) (family (twinFuel + 1) index) here)
    (fuel twinFuel : Nat) (index : ι) {here : Cursor} (holds : Holds index)
    (stands : here.StandsIn fork.source) (room : Room fork fuel twinFuel here) :
    Local fork (family fuel index) (family twinFuel index) here := by
  have shared : fork.shared.length ≤ fork.other.length ∧
      fork.shared.length ≤ fork.source.length := by simp [Fork.other, Fork.source]
  induction fuel generalizing twinFuel index here with
  | zero =>
      have finished : here.rest = [] := List.eq_nil_of_length_eq_zero (Nat.le_zero.mp room.enough)
      refine (atEnd index holds stands finished).replace ?_
      rw [stands.offset_of_end finished]
      exact shared.2
  | succ fuel inductionHypothesis =>
      cases twinFuel with
      | succ twinFuel => exact onward (inductionHypothesis twinFuel) index holds stands room
      | zero =>
          -- the other source has no character here, and any fuel would do
          have enough := room.twinEnough
          refine (onward (inductionHypothesis 0) index holds stands ⟨room.enough, ?_⟩).replace ?_
          · omega
          · omega

end Local

end Parser

end Letterline
