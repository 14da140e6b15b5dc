/-
Module: Letterline.Proofs.Rejection
Purpose: Where errors point, and what they do not depend on.
Trusted boundary: none
Main exports:
  Operand.parseOver, Value.parseParts, Value.parse_eq, Instruction.LocalRun,
  Instruction.localRun_parseRun, Program.rejection_placed
-/
import Letterline.Proofs.Lookahead
import Letterline.Proofs.ParserSound
import Letterline.Proofs.Tiling

namespace Letterline

/-!
Every parser of the language is local.  An operand is the one that is not local by itself: behind
a name it stops on the last character, which it can only do because it has looked at the next one.
Whatever reads an operand steps on at once, so values are read by a local parser all the same.
-/

open Letterline.Parser

variable {fork : Fork} {here : Cursor}

/-! ### Values -/

theorem LiteralKind.error_of_read {kind : LiteralKind} {contents : String} {index : Nat}
    {error : ParseError} (fails : kind.read contents index = .error error) :
    error = .invalidLiteral kind contents index := by
  rw [read] at fails
  split at fails <;> cases fails
  rfl

namespace Operand

/-- Reads an operand and stops behind it. -/
def parseOver : Parser Operand := do
  let operand ← parse
  step
  return operand

theorem local_parseOver (stands : here.StandsIn fork.source) :
    Local fork parseOver parseOver here := by
  rw [parseOver, parse, bind_assoc]
  have steps (operand : Operand) {here : Cursor} (stands : here.StandsIn fork.source) :
      Local fork (pure operand >>= fun operand => step >>= fun _ => pure operand)
        (pure operand >>= fun operand => step >>= fun _ => pure operand) here :=
    .andThen stands (.pure operand) fun _ _ stands => .andThen stands (.step stands) fun _ _ _ =>
      .pure _
  refine .look stands ?_ fun _ exhausted current index _ => by
    simp only [exhausted, current, index]
  split
  · exact .bind stands (.unexpected _ stands) fun _ _ _ ran => (yields_unexpected ran).elim
  next going =>
  have position := Cursor.index_eq_offset going
  split
  · next upper =>
      have nameChar := Cursor.isNameChar_of_isUpper upper
      simp only [bind_assoc, pure_bind]
      exact .name_step (.andThen stands (.name stands going nameChar) fun _ _ _ => .pure _)
        stands going nameChar
  split
  · exact steps .input stands
  cases marked : LiteralKind.ofMark? here.current with
  | none => exact .throw_bind (.throw_found stands going rfl position)
  | some kind =>
      rw [LiteralKind.ofMark?_eq_some] at marked
      have ordinary : here.current ≠ Cursor.escapeLetter := marked ▸ kind.mark_ne_escapeLetter
      simp only [bind_assoc]
      refine .andThen stands (.literalContents stands going ordinary)
        fun contents _ standsBehind => ?_
      cases denotes : kind.read contents here.index with
      | ok scalar => exact steps (.literal scalar) standsBehind
      | error error =>
          cases LiteralKind.error_of_read denotes
          refine .throw_bind (.throw_silent (.inside rfl ?_) rfl)
          rw [ParseError.index, position]
          exact stands.offset_lt going

end Operand

namespace Value

/-- Reads the operators and operands that follow an operand, behind which the cursor stands. -/
def parseParts (fuel : Nat) : Parser (List Part) := do
  let here ← Parser.cursor
  if here.exhausted then
    return []
  else
    match Operator.ofMark? here.current with
    | none => return []
    | some operator =>
        Parser.step
        if (← Parser.cursor).exhausted then
          Parser.unexpected .valueAfterOperator
        else
          let operand ← Operand.parse
          let rest ← parseRest fuel
          return ⟨operator, operand⟩ :: rest

theorem parseRest_succ (fuel : Nat) :
    parseRest (fuel + 1) = Parser.step >>= fun _ => parseParts fuel :=
  rfl

/-- A value is an operand, which is stepped over, and the parts that follow. -/
theorem parse_eq : Value.parse = do
    let first ← Operand.parseOver
    let rest ← parseParts (← Parser.cursor).remaining
    return ofParts (⟨.none, first⟩ :: rest) := by
  rw [parse, Operand.parseOver, bind_assoc]
  congr 1
  funext first
  simp only [bind_assoc, pure_bind]
  funext middle
  have left : middle.next.remaining = middle.after.length := by
    rw [Cursor.remaining_eq, Cursor.rest_next, Cursor.rest]
    split
    · next exhausted => rw [middle.last_of_exhausted exhausted]; rfl
    · rfl
  change (parseRest (middle.after.length + 1) >>= _) middle =
    (parseParts middle.next.remaining >>= _) middle.next
  rw [left, parseRest_succ, bind_assoc]
  rfl

theorem parse_parseRest {α : Type} (fuel : Nat) (next : Operand → List Part → Parser α) :
    (Operand.parse >>= fun operand => parseRest (fuel + 1) >>= next operand) =
      Operand.parseOver >>= fun operand => parseParts fuel >>= next operand := by
  simp only [Operand.parseOver, parseRest_succ, bind_assoc, pure_bind]

/-- Parts are read by a local parser, as long as there is fuel. -/
theorem local_parseParts (fuel twinFuel : Nat) (stands : here.StandsIn fork.source)
    (room : Local.Room fork fuel twinFuel here) :
    Local fork (parseParts fuel) (parseParts twinFuel) here := by
  refine Local.of_fuel (fun _ : Unit => True) (fun fuel _ => parseParts fuel) ?_ ?_ fuel twinFuel
    () trivial stands room
  · intro _ here _ stands finished
    refine .look stands ?_ fun _ exhausted current _ _ => by simp only [exhausted, current]
    rw [if_pos (Cursor.exhausted_iff.mpr finished)]
    exact .pure []
  · intro fuel twinFuel inductionHypothesis _ here _ stands room
    refine .look stands ?_ fun _ exhausted current _ _ => by simp only [exhausted, current]
    split
    · exact .pure []
    next going =>
    cases Operator.ofMark? here.current with
    | none => exact .pure []
    | some operator =>
        refine .bind stands (.step stands) fun _ after _ ran _ stands => ?_
        cases yields_step.mp ran
        have room := room.of_passes_cons (.next (Cursor.rest_of_going going))
        refine .look stands ?_ fun _ exhausted _ _ _ => by simp only [exhausted]
        split
        · exact .unexpected _ stands
        · rw [parse_parseRest, parse_parseRest]
          refine .andThenRoom stands room (Operand.local_parseOver stands)
            fun operand _ stands room => ?_
          exact .andThen stands (inductionHypothesis () trivial stands room) fun _ _ _ => .pure _

theorem local_parse (stands : here.StandsIn fork.source) :
    Local fork Value.parse Value.parse here := by
  rw [parse_eq]
  refine .andThen stands (Operand.local_parseOver stands) fun first after stands => ?_
  exact .look_remaining_bind stands (local_parseParts _ _ stands) fun _ _ _ => .pure _

end Value

/-! ### Conditions -/

namespace Comparator

theorem local_parseSpelling (fuel : Nat) (spelled : String) (stands : here.StandsIn fork.source) :
    Local fork (parseSpelling fuel spelled) (parseSpelling fuel spelled) here := by
  induction fuel generalizing spelled here with
  | zero => exact .pure spelled
  | succ fuel inductionHypothesis =>
      refine .look stands ?_ fun _ exhausted current _ _ => by simp only [exhausted, current]
      split
      · exact .pure spelled
      · refine .andThen stands (.step stands) fun _ _ stands => ?_
        split
        · exact .pure _
        · exact inductionHypothesis _ stands

theorem local_parse (stands : here.StandsIn fork.source) :
    Local fork Comparator.parse Comparator.parse here := by
  refine .look stands ?_ fun _ _ _ _ offset => by simp only [offset]
  refine .bind stands (local_parseSpelling _ _ stands) fun spelling after _ ran _ standsAfter => ?_
  split
  · exact .unexpected _ standsAfter
  next filled =>
  cases ofSpelling? spelling with
  | some comparator => exact .pure comparator
  | none =>
      -- a spelling that is not empty has letters of the source
      have going : here.rest ≠ [] := by
        intro finished
        obtain ⟨letters, passes, spelled⟩ := passes_of_parseSpelling ran
        have none : letters = [] := by
          have parts := passes.rest
          rw [finished] at parts
          exact (List.nil_eq_append_iff.mp parts).1
        rw [none, List.append_nil] at spelled
        exact filled (String.toList_inj.mp spelled)
      have going : ¬here.exhausted = true := mt Cursor.exhausted_iff.mp going
      exact .throw_silent (.inside rfl (stands.offset_lt going)) rfl

end Comparator

namespace Condition

theorem local_parseComparison (stands : here.StandsIn fork.source) :
    Local fork parseComparison parseComparison here := by
  refine .andThen stands (Value.local_parse stands) fun left _ stands => ?_
  refine .andThen stands (Comparator.local_parse stands) fun comparator _ stands => ?_
  exact .andThen stands (Value.local_parse stands) fun right _ _ => .pure _

theorem local_parseLinks (fuel twinFuel : Nat) (stands : here.StandsIn fork.source)
    (room : Local.Room fork fuel twinFuel here) :
    Local fork (parseLinks fuel) (parseLinks twinFuel) here := by
  refine Local.of_fuel (fun _ : Unit => True) (fun fuel _ => parseLinks fuel)
    (fun _ _ _ _ _ => .pure []) ?_ fuel twinFuel () trivial stands room
  intro fuel twinFuel inductionHypothesis _ here _ stands room
  refine .look stands ?_ fun _ exhausted current _ _ => by simp only [exhausted, current]
  split
  · exact .pure []
  next going =>
  cases Connective.ofMark? here.current with
  | none => exact .pure []
  | some connective =>
      refine .bind stands (.step stands) fun _ after _ ran _ stands => ?_
      cases yields_step.mp ran
      have room := room.of_passes_cons (.next (Cursor.rest_of_going going))
      refine .andThenRoom stands room (local_parseComparison stands)
        fun condition _ stands room => ?_
      exact .andThen stands (inductionHypothesis () trivial stands room) fun _ _ _ => .pure _

theorem local_parse (stands : here.StandsIn fork.source) :
    Local fork Condition.parse Condition.parse here := by
  refine .andThen stands (local_parseComparison stands) fun head _ stands => ?_
  exact .look_remaining_bind stands (local_parseLinks _ _ stands) fun _ _ _ => .pure _

end Condition

theorem Modification.local_parse (stands : here.StandsIn fork.source) :
    Local fork Modification.parse Modification.parse here := by
  refine .look stands ?_ fun _ exhausted current _ _ => by simp only [exhausted, current]
  split
  · exact .unexpected _ stands
  split
  · refine .andThen stands (.step stands) fun _ _ stands => ?_
    exact .andThen stands (Value.local_parse stands) fun _ _ _ => .pure _
  cases Operator.ofMark? here.current with
  | none => exact .unexpected _ stands
  | some operator =>
      refine .andThen stands (.step stands) fun _ there stands => ?_
      refine .look stands ?_ fun _ exhausted current _ _ => by simp only [exhausted, current]
      split
      · exact .unexpected _ stands
      split
      · refine .andThen stands (.step stands) fun _ _ stands => ?_
        exact .andThen stands (Value.local_parse stands) fun _ _ _ => .pure _
      split
      · exact .andThen stands (.step stands) fun _ _ _ => .pure _
      split
      · exact .andThen stands (.step stands) fun _ _ _ => .pure _
      · exact .unexpected _ stands

/-! ### Instructions -/

/-- The body that a run is to close was opened by its mark. -/
def Stop.OpenIn (source : List Char) : Stop → Prop
  | .bodyEnd start => ∃ mark, start = mark + 1 ∧ source[mark]? = some 't'
  | _ => True

namespace Instruction

/-- A reader of runs is local where there is fuel for what remains. -/
def LocalRun (fork : Fork) (fuel twinFuel : Nat) (run twin : Stop → Parser (List Instruction)) :
    Prop :=
  ∀ (stop : Stop) {here : Cursor}, stop.OpenIn fork.source → here.StandsIn fork.source →
    Local.Room fork fuel twinFuel here → Local fork (run stop) (twin stop) here

variable {fuel twinFuel : Nat} {run twin : Stop → Parser (List Instruction)}

theorem local_spanFrom (start : Nat) (stands : here.StandsIn fork.source) :
    Local fork (spanFrom start) (spanFrom start) here :=
  .look stands (.pure _) fun _ _ _ _ offset => by simp only [offset]

theorem local_parseEnd (start : Nat) (stands : here.StandsIn fork.source) :
    Local fork (parseEnd start) (parseEnd start) here :=
  .andThen stands (.expect _ _ stands) fun _ _ stands => local_spanFrom start stands

theorem local_parseBody (runs : LocalRun fork fuel twinFuel run twin)
    (stands : here.StandsIn fork.source) (room : Local.Room fork fuel twinFuel here) :
    Local fork (parseBody run) (parseBody twin) here := by
  refine .bind stands (.expect _ _ stands) fun _ after _ ran passes standsAfter => ?_
  obtain ⟨⟨tail, opens⟩, rfl⟩ := yields_expect.mp ran
  obtain ⟨going, current, -⟩ := Cursor.rest_eq_cons.mp opens
  refine .look standsAfter (runs _ ⟨here.offset, ?_, ?_⟩ standsAfter (room.of_passes passes))
    fun _ _ _ _ offset => by simp only [offset]
  · exact (Cursor.Passes.next opens).offset
  · rw [stands.getElem?_offset (Bool.eq_false_iff.mp going), current]

theorem local_parseElse (runs : LocalRun fork fuel twinFuel run twin)
    (stands : here.StandsIn fork.source) (room : Local.Room fork fuel twinFuel here) :
    Local fork (parseElse run) (parseElse twin) here := by
  refine .look stands ?_ fun _ exhausted current _ _ => by simp only [exhausted, current]
  split
  · refine .andThenRoom stands room (.step stands) fun _ _ stands room => ?_
    exact .andThen stands (local_parseBody runs stands room) fun _ _ _ => .pure _
  · exact .pure none

theorem local_parseDeclaration (start : Nat) (stands : here.StandsIn fork.source) :
    Local fork (parseDeclaration start) (parseDeclaration start) here := by
  refine .look stands ?_ fun _ exhausted current _ _ => by simp only [exhausted, current]
  split
  · exact .unexpected _ stands
  next capital =>
  simp only [Bool.or_eq_true, Bool.not_eq_true', not_or, Bool.not_eq_false] at capital
  have nameChar := Cursor.isNameChar_of_isUpper capital.2
  refine .andThen stands (.name stands capital.1 nameChar) fun name _ stands => ?_
  refine .andThen stands (.expect _ _ stands) fun _ _ stands => ?_
  refine .andThen stands (Value.local_parse stands) fun value _ stands => ?_
  exact .andThen stands (local_parseEnd start stands) fun _ _ _ => .pure _

/-- An instruction that begins with a lower-case letter steps over it, so there is room for less
fuel behind. -/
theorem local_behindLetter {α : Type} {next nextTwin : Parser α}
    (stands : here.StandsIn fork.source)
    (room : Local.Room fork (fuel + 1) (twinFuel + 1) here) (going : ¬here.exhausted = true)
    (isLocal : ∀ {after : Cursor}, after.StandsIn fork.source →
      Local.Room fork fuel twinFuel after → Local fork next nextTwin after) :
    Local fork (step >>= fun _ => next) (step >>= fun _ => nextTwin) here := by
  refine .bind stands (.step stands) fun _ _ _ ran _ stands => ?_
  cases yields_step.mp ran
  exact isLocal stands (room.of_passes_cons (.next (Cursor.rest_of_going going)))

theorem local_parse (runs : LocalRun fork fuel twinFuel run twin)
    (stands : here.StandsIn fork.source)
    (room : Local.Room fork (fuel + 1) (twinFuel + 1) here) (going : ¬here.exhausted = true) :
    Local fork (Instruction.parse run) (Instruction.parse twin) here := by
  have position := Cursor.index_eq_offset going
  refine .look stands ?_ fun _ _ current index _ => by simp only [current, index]
  split
  · next upper =>
      have nameChar := Cursor.isNameChar_of_isUpper upper
      refine .andThen stands (.name stands going nameChar) fun name _ stands => ?_
      refine .andThen stands (Modification.local_parse stands) fun modification _ stands => ?_
      exact .andThen stands (local_parseEnd _ stands) fun _ _ _ => .pure _
  split
  · refine local_behindLetter stands room going fun stands _ => ?_
    exact .andThen stands (local_parseEnd _ stands) fun _ _ _ => .pure _
  · refine local_behindLetter stands room going fun stands _ => ?_
    refine .andThen stands (Value.local_parse stands) fun value _ stands => ?_
    exact .andThen stands (local_parseEnd _ stands) fun _ _ _ => .pure _
  · exact local_behindLetter stands room going fun stands _ => local_parseDeclaration _ stands
  · refine local_behindLetter stands room going fun stands room => ?_
    refine .andThenRoom stands room (Condition.local_parse stands) fun condition _ stands room => ?_
    refine .andThenRoom stands room (local_parseBody runs stands room) fun body _ stands room => ?_
    refine .andThen stands (local_parseElse runs stands room) fun other _ stands => ?_
    exact .andThen stands (local_spanFrom _ stands) fun _ _ _ => .pure _
  · refine local_behindLetter stands room going fun stands room => ?_
    refine .andThenRoom stands room (Condition.local_parse stands) fun condition _ stands room => ?_
    refine .andThen stands (local_parseBody runs stands room) fun body _ stands => ?_
    exact .andThen stands (local_spanFrom _ stands) fun _ _ _ => .pure _
  · refine local_behindLetter stands room going fun stands room => ?_
    refine .andThenRoom stands room (runs _ trivial stands room) fun init _ stands room => ?_
    refine .andThenRoom stands room (.expect _ _ stands) fun _ _ stands room => ?_
    refine .andThenRoom stands room (Condition.local_parse stands) fun condition _ stands room => ?_
    refine .andThenRoom stands room (.expect _ _ stands) fun _ _ stands room => ?_
    refine .andThenRoom stands room (runs _ trivial stands room) fun update _ stands room => ?_
    refine .andThen stands (local_parseBody runs stands room) fun body _ stands => ?_
    exact .andThen stands (local_spanFrom _ stands) fun _ _ _ => .pure _
  · exact .throw_found stands going rfl position

theorem local_parseSourceEnd {stop : Stop} (opened : stop.OpenIn fork.source) :
    Local fork (parseSourceEnd stop) (parseSourceEnd stop) here := by
  cases stop with
  | bodyEnd start =>
      obtain ⟨mark, rfl, found⟩ := opened
      exact .throw_silent (.unclosed found) rfl
  | sourceEnd => exact .pure []
  | segmentEnd segment => exact .pure []

theorem local_parseStop (stop : Stop) (stands : here.StandsIn fork.source) :
    Local fork (parseStop stop) (parseStop stop) here := by
  cases stop with
  | bodyEnd start => exact .step stands
  | sourceEnd => exact .pure ()
  | segmentEnd segment => exact .pure ()

theorem local_permit (stop : Stop) (instruction : Instruction)
    (starts : instruction.span.start < fork.source.length) :
    Local fork (permit stop instruction) (permit stop instruction) here := by
  cases stop with
  | segmentEnd segment =>
      rw [permit]
      split
      · exact .pure ()
      · exact .throw_silent (.inside rfl starts) rfl
  | sourceEnd => exact .pure ()
  | bodyEnd start => exact .pure ()

/-- The parser of runs is local. -/
theorem localRun_parseRun (fork : Fork) (fuel twinFuel : Nat) :
    LocalRun fork fuel twinFuel (parseRun fuel) (parseRun twinFuel) := by
  intro stop here opened stands room
  refine Local.of_fuel (fun stop : Stop => stop.OpenIn fork.source) parseRun
    (fun _ _ opened _ _ => local_parseSourceEnd opened) ?_ fuel twinFuel stop opened stands room
  intro fuel twinFuel inductionHypothesis stop here opened stands room
  refine .look stands ?_ fun _ exhausted current _ _ => by simp only [exhausted, current]
  split
  · exact local_parseSourceEnd opened
  next going =>
  split
  · exact .andThen stands (local_parseStop stop stands) fun _ _ _ => .pure []
  · refine .bind stands (local_parse inductionHypothesis stands room going)
      fun instruction after _ ran _ standsAfter => ?_
    obtain ⟨phrase, passes, rfl⟩ :=
      passes_of_parse (soundRun_parseRun fuel) room.enough going ran
    have starts : (phrase.instruction here.offset).span.start < fork.source.length := by
      rw [InstructionPhrase.span_instruction]
      exact stands.offset_lt going
    obtain ⟨c, text, filled⟩ := List.exists_cons_of_ne_nil phrase.text_ne_nil
    rw [filled] at passes
    have room := room.of_passes_cons passes
    refine .andThenRoom standsAfter room (local_permit stop _ starts) fun _ _ stands room => ?_
    exact .andThen stands (inductionHypothesis stop opened stands room) fun _ _ _ => .pure _

end Instruction

/-! ### Programs -/

namespace Program

theorem local_parseInstructions (stands : here.StandsIn fork.source) :
    Local fork parseInstructions parseInstructions here :=
  .look_remaining (fun fuel => Instruction.parseRun fuel .sourceEnd)
    (fun fuel => Instruction.parseRun fuel .sourceEnd) fun room =>
      Instruction.localRun_parseRun fork _ _ .sourceEnd trivial stands room

/-- A source is rejected because it is empty or has a space, or because its instructions are. -/
theorem parse_eq_error {source : String} {error : ParseError} :
    parse source = .error error ↔
      (∃ refusal, Cursor.ofSource source = .error refusal ∧ .ofRefusal refusal = error) ∨
      ∃ cursor, Cursor.ofSource source = .ok cursor ∧ parseInstructions.Fails cursor error := by
  rw [parse, runFrom]
  cases Cursor.ofSource source with
  | error refusal => simp
  | ok cursor =>
      rcases outcome : parseInstructions cursor with ⟨instructions, after⟩ | ⟨reported, stopped⟩
      · simp [runOn, outcome, Fails]
      · simp [runOn, outcome, Fails]

/-- A source that has no cursor is empty, or has a space somewhere. -/
theorem ofSource_eq_error {source : String} {refusal : Cursor.Refusal}
    (refused : Cursor.ofSource source = .error refusal) :
    refusal = .empty ∧ source.toList = [] ∨
      ∃ index, refusal = .space index ∧ index < source.toList.length := by
  rw [Cursor.ofSource] at refused
  split at refused
  · next text => cases refused; exact .inl ⟨rfl, text⟩
  · next first rest text =>
      split at refused
      · next index found =>
          cases refused
          obtain ⟨inside, -⟩ := List.findIdx?_eq_some_iff_getElem.mp found
          exact .inr ⟨index, rfl, text ▸ inside⟩
      · cases refused

theorem stands_of_ofSource {source : String} {cursor : Cursor}
    (opened : Cursor.ofSource source = .ok cursor) : cursor.StandsIn source.toList := by
  obtain ⟨rest, -, -, atStart, length⟩ := Cursor.ofSource_eq_ok opened
  exact ⟨by rw [rest, atStart, List.drop_zero], length⟩

/-- An error points into the source that it rejects.  It points behind the last character only
where the source is empty or comes to its end too early, or where a body begins that has nothing in
it.  And an error that says what it found says the truth, and depends on nothing behind. -/
theorem rejection_placed {source : String} {error : ParseError}
    (rejects : parse source = .error error) :
    error.index ≤ source.toList.length ∧
    (error.index = source.toList.length →
      error = .emptySource ∨
      (∃ expected, error = .unexpected expected none source.toList.length) ∨
      error = .unclosedBody source.toList.length ∧ source.toList.getLast? = some 't') ∧
    ∀ found, error.found? = some found →
      source.toList[error.index]? = some found ∧
      ∀ other : String, ' ' ∉ other.toList →
        other.toList.take (error.index + 1) = source.toList.take (error.index + 1) →
        parse other = .error error := by
  rcases parse_eq_error.mp rejects with ⟨refusal, refused, rfl⟩ | ⟨cursor, opened, failed⟩
  · rcases ofSource_eq_error refused with ⟨rfl, empty⟩ | ⟨index, rfl, inside⟩
    · exact ⟨Nat.zero_le _, fun _ => .inl rfl, nofun⟩
    · exact ⟨Nat.le_of_lt inside, fun atEnd => absurd atEnd (Nat.ne_of_lt inside), nofun⟩
  have stands := stands_of_ofSource opened
  have placed : error.PlacedIn source.toList := by
    have whole : (Fork.mk source.toList [] []).source = source.toList := List.append_nil _
    rw [← whole] at stands ⊢
    exact (local_parseInstructions stands).placed failed
  refine ⟨placed.index_le, fun atEnd => .inr (placed.of_index_eq atEnd), fun found reports => ?_⟩
  have here := placed.getElem?_index reports
  have inside := (List.getElem?_eq_some_iff.mp here).1
  refine ⟨here, fun other spaceless alike => ?_⟩
  -- the sources part behind the character that was found
  let fork : Fork := ⟨source.toList.take (error.index + 1), source.toList.drop (error.index + 1),
    other.toList.drop (error.index + 1)⟩
  have isSource : fork.source = source.toList := List.take_append_drop _ _
  have isOther : fork.other = other.toList := by
    have shared : fork.shared = other.toList.take (error.index + 1) := alike.symm
    rw [Fork.other, shared]
    exact List.take_append_drop _ _
  have within : error.index < fork.shared.length := by
    rw [List.length_take]
    omega
  have filled : other.toList ≠ [] := by
    intro empty
    have length := congrArg List.length alike
    rw [empty, List.length_take, List.length_take, List.length_nil] at length
    omega
  obtain ⟨there, openedThere⟩ := Cursor.exists_ofSource filled spaceless
  have mirrors : fork.Mirrors cursor there := by
    obtain ⟨-, -, -, atStart, -⟩ := Cursor.ofSource_eq_ok opened
    obtain ⟨-, -, -, atStartThere, -⟩ := Cursor.ofSource_eq_ok openedThere
    exact ⟨isOther ▸ stands_of_ofSource openedThere, by rw [atStart, atStartThere]⟩
  rw [← isSource] at stands
  exact parse_eq_error.mpr (.inr ⟨there, openedThere,
    (local_parseInstructions stands).fails failed reports within mirrors⟩)

/-- What is printed begins with no value in `hx`, and that is so whatever comes behind. -/
theorem rejection_placed_in_print :
    parse "hx" = .error (.unknownValueType 'x' 1) ∧
      parse "hxil" = .error (.unknownValueType 'x' 1) := by
  have rejects : parse "hx" = .error (.unknownValueType 'x' 1) := rfl
  have placed := (rejection_placed rejects).2.2 'x' rfl
  exact ⟨rejects, placed.2 "hxil" (by decide) (by decide)⟩

end Program

end Letterline
