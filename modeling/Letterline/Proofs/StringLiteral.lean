/-
Module: Letterline.Proofs.StringLiteral
Purpose: Exactly the texts that a string literal in a source can stand for.
Trusted boundary: none
Main exports:
  StandsFor, Value.exists_parse_literal, standsFor_iff, denotable_iff_avoids
-/
import Letterline.Proofs.Image
import Letterline.Proofs.ParserComplete

namespace Letterline

/-!
Two things decide what a string literal is read as: where its closing delimiter stands,
which is found in the contents as they are written, and what the contents denote, which is
found by replacing the escapes.  What comes behind the literal does not matter as long as
it does not go on with an operator.  It may be a letter or a digit of a name: a literal
ends at its delimiter and not, as a name does, at the first character of another kind.
-/

/-- Whatever follows, the contents between the delimiters of a string literal are read as
the text, and what follows is left to be read. -/
def StandsFor (contents text : String) : Prop :=
  ∀ behind c others, behind.toList = c :: others → Operator.ofMark? c = none →
    ' ' ∉ behind.toList →
      ∃ after, Value.parse.runFrom ("s" ++ contents ++ "s" ++ behind) =
          .ok (.ofParts [⟨.none, .literal (.string text)⟩], after) ∧
        after.rest = behind.toList ∧ after.index = contents.length + 2

/-! ### Reading a literal -/

/-- A value that is one literal is read up to its closing delimiter. -/
theorem Value.exists_parse_literal {cursor : Cursor} {tail : List Char} (phrase : LiteralPhrase)
    (here : cursor.rest = phrase.text ++ tail)
    (stops : ∀ c, tail.head? = some c → Operator.ofMark? c = none) :
    ∃ after, Value.parse.Yields cursor (.ofParts [⟨.none, .literal phrase.scalar⟩]) after ∧
      cursor.Passes phrase.text after ∧ after.rest = tail := by
  obtain ⟨closing, operandYields, left⟩ := Operand.exists_parse_literal phrase here
  rw [← left] at stops
  have yields :
      Value.parse.Yields cursor (.ofParts [⟨.none, .literal phrase.scalar⟩]) closing.next := by
    simp only [Value.parse, Parser.yields_bind, Parser.yields_cursor, and_assoc,
      exists_and_left, exists_eq_left']
    exact ⟨_, _, operandYields, _, _, Value.yields_parseRest_nil stops, rfl⟩
  refine ⟨closing.next, yields, ?_, left⟩
  obtain ⟨whole, passes, _⟩ := Value.passes_of_parse yields
  have sameText : phrase.text ++ tail = whole.text ++ tail := by
    rw [← here, passes.rest, left]
  rwa [List.append_cancel_right sameText]

/-- The phrase of a string literal. -/
def LiteralPhrase.ofString (contents : String) (delimited : Delimited 's' contents.toList) :
    LiteralPhrase where
  kind := .string
  contents := contents.toList
  scalar := .string (unescapeString contents)
  delimited := delimited
  denotes := by rw [String.ofList_toList, LiteralKind.read?]

/-- Only a literal has a value that is one literal. -/
theorem ValuePhrase.exists_literal {phrase : ValuePhrase} {scalar : Scalar}
    (single : phrase.value = .ofParts [⟨.none, .literal scalar⟩]) :
    ∃ literal : LiteralPhrase, phrase.text = literal.text ∧ literal.scalar = scalar := by
  rcases phrase with ⟨first, links⟩
  cases links with
  | cons link links => cases congrArg (List.length ∘ Value.parts) single
  | nil =>
      cases first with
      | «variable» name => cases single
      | input => cases single
      | literal literal =>
          cases single
          exact ⟨literal, List.append_nil _, rfl⟩

section

variable {contents text : String}

/-- A source that begins with a string literal is the text of its phrase and what follows. -/
theorem toList_literal_append (behind : String) :
    ("s" ++ contents ++ "s" ++ behind).toList =
      's' :: (contents.toList ++ ['s']) ++ behind.toList := by
  simp

/-- Contents in which the closing delimiter is the first that is not escaped are read. -/
theorem standsFor_of_delimited (spaceless : ' ' ∉ contents.toList)
    (delimited : Delimited 's' contents.toList) :
    StandsFor contents (unescapeString contents) := by
  intro behind c others starts stops spacelessBehind
  have filled : ("s" ++ contents ++ "s" ++ behind).toList ≠ [] := by
    rw [toList_literal_append]
    nofun
  have spacelessSource : ' ' ∉ ("s" ++ contents ++ "s" ++ behind).toList := by
    rw [toList_literal_append]
    simp [spaceless, spacelessBehind]
  obtain ⟨cursor, opened⟩ := Cursor.exists_ofSource filled spacelessSource
  obtain ⟨here, _, _, start, _⟩ := Cursor.ofSource_eq_ok opened
  have next : ∀ d, behind.toList.head? = some d → Operator.ofMark? d = none := by
    rw [starts]
    intro d same
    cases same
    exact stops
  obtain ⟨after, yields, passes, left⟩ :=
    Value.exists_parse_literal (.ofString contents delimited)
      (here.trans (toList_literal_append behind)) next
  refine ⟨after, Parser.runFrom_eq_ok.mpr ⟨cursor, opened, yields⟩, left, ?_⟩
  have going : ¬after.exhausted = true := by
    rw [Cursor.exhausted_iff, left, starts]
    nofun
  rw [Cursor.index_eq_offset going, passes.offset, start]
  simp [LiteralPhrase.text, LiteralPhrase.ofString, String.length_toList]

/-- Contents that are read are written without a space, end where the literal does and
denote what they are read as. -/
theorem delimited_of_standsFor (stands : StandsFor contents text) :
    ' ' ∉ contents.toList ∧ Delimited 's' contents.toList ∧ unescapeString contents = text := by
  -- The exit instruction is as good as any other text behind the literal.
  obtain ⟨after, read, left, _⟩ := stands "e" 'e' [] rfl rfl (by decide)
  obtain ⟨cursor, opened, yields⟩ := Parser.runFrom_eq_ok.mp read
  obtain ⟨here, _, spaceless, _⟩ := Cursor.ofSource_eq_ok opened
  obtain ⟨whole, passes, single⟩ := Value.passes_of_parse yields
  obtain ⟨phrase, sameText, sameScalar⟩ := ValuePhrase.exists_literal single.symm
  have literal : 's' :: (contents.toList ++ ['s']) = phrase.text := by
    rw [← sameText]
    apply List.append_cancel_right
    rw [← toList_literal_append, ← here, passes.rest, left]
  rcases phrase with ⟨kind, letters, scalar, delimited, denotes⟩
  obtain rfl : scalar = .string text := sameScalar
  obtain ⟨mark, inside⟩ := List.cons.inj literal
  obtain rfl : kind = .string := LiteralKind.mark_injective mark.symm
  obtain rfl : contents.toList = letters := List.append_cancel_right inside
  rw [String.ofList_toList] at denotes
  rw [toList_literal_append] at spaceless
  refine ⟨fun member => spaceless (by simp [member]), delimited, ?_⟩
  injection denotes with sameString
  injection sameString

/-- Contents stand for a text exactly if no delimiter ends them early, none of their escape
letters takes the closing delimiter in, and they denote the text. -/
theorem standsFor_iff :
    StandsFor contents text ↔
      ' ' ∉ contents.toList ∧ Delimited 's' contents.toList ∧ unescapeString contents = text := by
  constructor
  · exact delimited_of_standsFor
  · intro evidence
    rcases evidence with ⟨spaceless, delimited, rfl⟩
    exact standsFor_of_delimited spaceless delimited

end

/-! ### The texts of string literals -/

/-- A text can be written exactly if it has no letter of a later escape behind an escape
letter, and then it can be written character by character. -/
theorem denotable_iff_avoids (text : String) :
    ((∃ contents, ' ' ∉ contents.toList ∧ StandsFor contents text) ↔
        Avoids 'g' 'n' text.toList ∧ Avoids 'g' 'l' text.toList ∧ Avoids 'g' 's' text.toList) ∧
      ' ' ∉ (escapeString text).toList ∧
      (StandsFor (escapeString text) text ↔
        Avoids 'g' 'n' text.toList ∧ Avoids 'g' 'l' text.toList ∧
          Avoids 'g' 's' text.toList) := by
  have necessary : ∀ contents, StandsFor contents text →
      Avoids 'g' 'n' text.toList ∧ Avoids 'g' 'l' text.toList ∧
        Avoids 'g' 's' text.toList := by
    intro contents stands
    obtain ⟨_, delimited, rfl⟩ := standsFor_iff.mp stands
    exact ⟨avoids_unescapeString delimited (Or.inl rfl),
      avoids_unescapeString delimited (Or.inr (Or.inl rfl)),
      avoids_unescapeString delimited (Or.inr (Or.inr rfl))⟩
  have sufficient : Avoids 'g' 'n' text.toList ∧ Avoids 'g' 'l' text.toList ∧
      Avoids 'g' 's' text.toList → StandsFor (escapeString text) text := by
    intro evidence
    rcases evidence with ⟨newline, space, delimiter⟩
    exact standsFor_iff.mpr ⟨space_not_mem_escapeString text, delimited_escapeString delimiter,
      unescapeString_escapeString newline space delimiter⟩
  refine ⟨⟨?_, ?_⟩, space_not_mem_escapeString text, necessary _, sufficient⟩
  · intro evidence
    rcases evidence with ⟨contents, _, stands⟩
    exact necessary contents stands
  · intro avoids
    exact ⟨escapeString text, space_not_mem_escapeString text, sufficient avoids⟩

end Letterline
