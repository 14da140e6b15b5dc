/-
Module: Letterline.Proofs.FirstLine
Purpose: What the lines behind the first one have to do with what is loaded.
Trusted boundary: none
Main exports:
  SourceFile.lineFeed, SourceFile.withLines, SourceFile.Requirement.refuses,
  SourceFile.isValidUTF8_withLines, SourceFile.load_withLines, SourceFile.load_alike_iff
-/
import Letterline.SourceFile
import Mathlib.Logic.Basic

namespace Letterline.SourceFile

/-!
The program is the first line of its file, but the file is decoded as a whole before the line is
taken.  A line feed is a character of its own in UTF-8, so a file is text if and only if what stands
in front of a line feed and what stands behind it are.  So what the lines behind the first one say
does not matter, but a byte there that is no text makes the file unreadable.
-/

/-! ### Lines in bytes -/

/-- The byte that ends a line. -/
def lineFeed : ByteArray := [10].toByteArray

/-- The contents of a file: a first line, the line feed that ends it, and what follows. -/
def withLines (first further : ByteArray) : ByteArray :=
  first ++ (lineFeed ++ further)

theorem lineFeed_eq : lineFeed = ['\n'].utf8Encode := by
  decide

/-- Behind the first line stands a line feed. -/
theorem getElem_withLines {first further : ByteArray}
    (inside : first.size < (withLines first further).size) :
    (withLines first further)[first.size] = 10 := by
  simp only [withLines, ByteArray.getElem_append_right (Nat.le_refl first.size), Nat.sub_self]
  rfl

/-- Bytes are text if and only if they are on both sides of a line feed. -/
theorem isValidUTF8_withLines {first further : ByteArray} :
    (withLines first further).IsValidUTF8 ↔ first.IsValidUTF8 ∧ further.IsValidUTF8 := by
  have behind : (lineFeed ++ further).IsValidUTF8 ↔ further.IsValidUTF8 := by
    rw [lineFeed_eq, ByteArray.isValidUTF8_utf8Encode_singleton_append_iff]
  constructor
  · intro valid
    -- the line feed is where a character of the whole text begins
    let text : String := .ofByteArray (withLines first further) valid
    let place : String.Pos.Raw := ⟨first.size⟩
    have size : text.utf8ByteSize = first.size + (lineFeed ++ further).size :=
      ByteArray.size_append
    have inside : place < text.rawEndPos := by
      rw [String.Pos.Raw.lt_iff, String.byteIdx_rawEndPos, size, ByteArray.size_append]
      exact Nat.lt_add_of_pos_right (Nat.add_pos_left (by decide) _)
    have begins : place.IsValid text := by
      have byte : text.getUTF8Byte place inside = 10 := getElem_withLines inside
      rw [String.Pos.Raw.isValid_iff_isUTF8FirstByte]
      refine .inr ⟨inside, ?_⟩
      rw [byte]
      decide
    have before : ((first ++ (lineFeed ++ further)).extract 0 first.size).IsValidUTF8 :=
      begins.isValidUTF8_extract_zero
    have after := begins.isValidUTF8_extract_utf8ByteSize
    rw [size] at after
    change ((first ++ (lineFeed ++ further)).extract first.size _).IsValidUTF8 at after
    rw [ByteArray.extract_append_eq_left rfl] at before
    rw [ByteArray.extract_append_eq_right rfl rfl] at after
    exact ⟨before, behind.mp after⟩
  · rintro ⟨validFirst, validFurther⟩
    exact validFirst.append (behind.mpr validFurther)

/-! ### Lines in a text -/

/-- The first line does not depend on what comes behind it. -/
theorem firstLine_append (line further : List Char) :
    firstLine (line ++ '\n' :: further) = firstLine (line ++ ['\n']) := by
  have cut (further : List Char) : (line ++ '\n' :: further).takeWhile (· != '\n') =
      line.takeWhile (· != '\n') := by
    rw [List.takeWhile_append]
    split
    · next whole =>
        rw [(List.takeWhile_prefix _).eq_of_length whole]
        exact List.append_nil line
    · rfl
  have shorter (further : List Char) :
      (line.takeWhile (· != '\n')).length < (line ++ '\n' :: further).length := by
    have bound := (List.takeWhile_prefix (l := line) (· != '\n')).length_le
    rw [List.length_append, List.length_cons]
    omega
  simp only [firstLine, cut, shorter, decide_true]

/-! ### Loading -/

/-- The requirement does not take the extension of a path. -/
def Requirement.refuses (requirement : Requirement) (path : String) : Bool :=
  requirement.isRequired && (PathName.extension? path).getD "" != requirement.extension

variable {first further : ByteArray} {path : String} {requirement : Requirement}

theorem textOf_of_isValidUTF8 {bytes : ByteArray} (valid : bytes.IsValidUTF8) :
    textOf (.file bytes) = .ok (.ofByteArray bytes valid) := by
  rw [textOf, String.fromUTF8?, dif_pos valid]
  rfl

theorem textOf_of_not_isValidUTF8 {bytes : ByteArray} (invalid : ¬bytes.IsValidUTF8) :
    textOf (.file bytes) = .error "stream did not contain valid UTF-8" := by
  rw [textOf, String.fromUTF8?, dif_neg invalid]

theorem toList_withLines (valid : (withLines first further).IsValidUTF8)
    (validFirst : first.IsValidUTF8) (validFurther : further.IsValidUTF8) :
    (String.ofByteArray (withLines first further) valid).toList =
      (String.ofByteArray first validFirst).toList ++ '\n' ::
        (String.ofByteArray further validFurther).toList := by
  have joined : String.ofByteArray (withLines first further) valid =
      .ofByteArray first validFirst ++ ("\n" ++ .ofByteArray further validFurther) :=
    String.toByteArray_inj.mp rfl
  rw [joined, String.toList_append, String.toList_append]
  rfl

theorem load_of_refuses (refused : requirement.refuses path) (bytes : ByteArray) :
    load path requirement (.file bytes) = .error (.wrongExtension path requirement.extension) :=
  if_pos refused

theorem load_of_not_isValidUTF8 (taken : ¬requirement.refuses path) {bytes : ByteArray}
    (invalid : ¬bytes.IsValidUTF8) :
    load path requirement (.file bytes) =
      .error (.unreadable path "stream did not contain valid UTF-8") := by
  refine (if_neg taken).trans ?_
  rw [textOf_of_not_isValidUTF8 invalid]

/-- Of a file that is text, the first line is loaded, whatever the other lines say. -/
theorem load_withLines (taken : ¬requirement.refuses path) (validFirst : first.IsValidUTF8)
    (validFurther : further.IsValidUTF8) :
    load path requirement (.file (withLines first further)) =
      let line := firstLine ((String.ofByteArray first validFirst).toList ++ ['\n'])
      if line.isEmpty then .error (.empty path) else .ok (String.ofList line) := by
  have valid := isValidUTF8_withLines.mpr ⟨validFirst, validFurther⟩
  refine (if_neg taken).trans ?_
  rw [textOf_of_isValidUTF8 valid]
  simp only [toList_withLines valid validFirst validFurther, firstLine_append _ (String.toList _)]

/-- Behind a first line that is text, bytes that are none make the whole file unreadable. -/
theorem load_eq_unreadable_iff (taken : ¬requirement.refuses path)
    (validFirst : first.IsValidUTF8) :
    load path requirement (.file (withLines first further)) =
        .error (.unreadable path "stream did not contain valid UTF-8") ↔
      ¬further.IsValidUTF8 := by
  constructor
  · intro unreadable validFurther
    rw [load_withLines taken validFirst validFurther] at unreadable
    dsimp only at unreadable
    split at unreadable <;> cases unreadable
  · intro invalid
    exact load_of_not_isValidUTF8 taken fun valid => invalid (isValidUTF8_withLines.mp valid).2

/-- Two files with the same first line, or the same first lines, are loaded alike, except if these
are text and what follows is text in only one of the files. -/
theorem load_alike_iff (path : String) (requirement : Requirement)
    (first further other : ByteArray) :
    load path requirement (.file (withLines first further)) =
        load path requirement (.file (withLines first other)) ↔
      requirement.refuses path ∨ ¬first.IsValidUTF8 ∨
        (further.IsValidUTF8 ↔ other.IsValidUTF8) := by
  by_cases refused : requirement.refuses path
  · simp only [load_of_refuses refused, refused, true_or]
  by_cases validFirst : first.IsValidUTF8
  · have unreadable {further : ByteArray} :
        load path requirement (.file (withLines first further)) =
            .error (.unreadable path "stream did not contain valid UTF-8") ↔
          ¬further.IsValidUTF8 :=
      load_eq_unreadable_iff refused validFirst
    simp only [refused, validFirst, not_true_eq_false, false_or, Bool.false_eq_true]
    constructor
    · intro alike
      rw [← not_iff_not, ← unreadable, ← unreadable, alike]
    · intro same
      by_cases valid : further.IsValidUTF8
      · rw [load_withLines refused validFirst valid,
          load_withLines refused validFirst (same.mp valid)]
      · rw [unreadable.mpr valid, unreadable.mpr (mt same.mpr valid)]
  · have invalid (further : ByteArray) : ¬(withLines first further).IsValidUTF8 :=
      fun valid => validFirst (isValidUTF8_withLines.mp valid).1
    simp only [load_of_not_isValidUTF8 refused (invalid _), validFirst, not_false_eq_true, true_or,
      or_true]

/-- The line `xl` is loaded if nothing follows, and not if a byte follows that is no text. -/
theorem load_differs_behind_line :
    load "p.lc" ⟨"lc", false⟩ (.file (withLines [120, 108].toByteArray .empty)) = .ok "xl" ∧
      load "p.lc" ⟨"lc", false⟩ (.file (withLines [120, 108].toByteArray [255].toByteArray)) =
        .error (.unreadable "p.lc" "stream did not contain valid UTF-8") := by
  have taken : ¬Requirement.refuses ⟨"lc", false⟩ "p.lc" := Bool.false_ne_true
  have validFirst : [120, 108].toByteArray.IsValidUTF8 := by decide
  have line : String.ofByteArray [120, 108].toByteArray validFirst = "xl" := rfl
  constructor
  · rw [load_withLines taken validFirst (by decide), line]
    rfl
  · exact (load_eq_unreadable_iff taken validFirst).mpr (by decide)

end Letterline.SourceFile
