/-
Module: Letterline.Proofs.PrintedText
Purpose: Which values are read back from their own text when it is typed as an answer.
Trusted boundary: none
Main exports:
  exists_digit_of_signedDigits?, Numeral.exists_digit_of_ofText?,
  Scalar.ofInput?_eq_string_iff, Scalar.ofInput?_singleton_iff, Scalar.ofInput?_text_iff
-/
import Letterline.Proofs.Numeral

namespace Letterline

/-!
An answer is read as a number if it can be, then as a single character, then as a boolean word,
and only then as a string.  So a value that is printed and typed in again comes back as itself
unless its text also is one of an earlier kind.  Nothing is read as a number that has no digit,
which leaves single characters other than digits, and the boolean words, to their own kinds.
-/

/-! ### Numbers have digits -/

theorem mem_of_mem_splitSign {text : List Char} {c : Char} (member : c ∈ (splitSign text).2) :
    c ∈ text := by
  unfold splitSign at member
  split at member
  · exact List.mem_cons_of_mem _ member
  · exact List.mem_cons_of_mem _ member
  · exact member

theorem exists_digit_of_takeWhile {text : List Char} (filled : text.takeWhile Char.isDigit ≠ []) :
    ∃ c ∈ text, c.isDigit := by
  obtain ⟨c, member⟩ := List.exists_mem_of_ne_nil _ filled
  have digital := List.all_eq_true.mp List.all_takeWhile c member
  exact ⟨c, (List.takeWhile_prefix _).subset member, digital⟩

/-- What is read as a whole number has a digit. -/
theorem exists_digit_of_signedDigits? {text : List Char} {value : Int}
    (read : signedDigits? text = some value) : ∃ c ∈ text, c.isDigit := by
  rw [signedDigits?] at read
  split at read
  next negative digits taken =>
  split at read
  · next digital =>
      rw [Bool.and_eq_true, List.all_eq_true] at digital
      obtain ⟨c, member⟩ := List.exists_mem_of_ne_nil digits (by simpa using digital.1)
      refine ⟨c, mem_of_mem_splitSign ?_, digital.2 c member⟩
      rwa [taken]
  · cases read

namespace Numeral

theorem exists_digit_of_ofUnsigned? {negative : Bool} {text : List Char} {numeral : Numeral}
    (read : ofUnsigned? negative text = some numeral) : ∃ c ∈ text, c.isDigit := by
  by_cases whole : text.takeWhile Char.isDigit = []
  · -- then digits stand behind a point
    rw [ofUnsigned?] at read
    split at read
    next fraction rest split =>
    split at read
    · cases read
    · next filled =>
        split at split
        · next tail point =>
            cases split
            have behind : tail.takeWhile Char.isDigit ≠ [] := by
              intro none
              simp [whole, none] at filled
            obtain ⟨c, member, digit⟩ := exists_digit_of_takeWhile behind
            refine ⟨c, (List.dropWhile_suffix Char.isDigit).subset ?_, digit⟩
            rw [point]
            exact List.mem_cons_of_mem _ member
        · cases split
          simp [whole] at filled
  · exact exists_digit_of_takeWhile whole

/-- What is read as a numeral has a digit. -/
theorem exists_digit_of_ofText? {text : List Char} {numeral : Numeral}
    (read : ofText? text = some numeral) : ∃ c ∈ text, c.isDigit := by
  obtain ⟨c, member, digit⟩ := exists_digit_of_ofUnsigned? read
  exact ⟨c, mem_of_mem_splitSign member, digit⟩

end Numeral

namespace Scalar

theorem readInt?_eq_none {text : String} (digitFree : ∀ c ∈ text.toList, ¬c.isDigit) :
    readInt? text = none := by
  rw [readInt?]
  cases read : signedDigits? text.toList with
  | none => rfl
  | some value =>
      obtain ⟨c, member, digit⟩ := exists_digit_of_signedDigits? read
      exact absurd digit (digitFree c member)

theorem readDouble?_eq_none {text : String} (digitFree : ∀ c ∈ text.toList, ¬c.isDigit) :
    readDouble? text = none := by
  rw [readDouble?]
  cases read : Numeral.ofText? text.toList with
  | none => rfl
  | some numeral =>
      obtain ⟨c, member, digit⟩ := Numeral.exists_digit_of_ofText? read
      exact absurd digit (digitFree c member)

/-! ### What an answer is read as -/

theorem ofInput?_of_int {line : String} {value : Int32} (read : readInt? line = some value) :
    ofInput? line = some (.int value) := by
  unfold ofInput?
  rw [read]

theorem ofInput?_of_double {line : String} {value : Double} (noInt : readInt? line = none)
    (read : readDouble? line = some value) : ofInput? line = some (.double value) := by
  unfold ofInput?
  rw [noInt, read]

/-- An answer is the string that it is made of exactly if it has two characters or more and is
neither a boolean word nor a number. -/
theorem ofInput?_eq_string_iff {line : String} :
    ofInput? line = some (.string line) ↔
      2 ≤ line.length ∧ line ≠ "true" ∧ line ≠ "false" ∧ readInt? line = none ∧
        readDouble? line = none := by
  cases noInt : readInt? line with
  | some value => simp [ofInput?_of_int noInt]
  | none =>
      cases noDouble : readDouble? line with
      | some value => simp [ofInput?_of_double noInt noDouble]
      | none =>
          rw [← String.length_toList]
          unfold ofInput?
          rw [noInt, noDouble]
          simp only
          split
          · next empty => simp [empty]
          · next value single => simp [single]
          · next filled more =>
              have long : 2 ≤ line.toList.length := by
                rcases chars : line.toList with _ | ⟨first, _ | ⟨second, rest⟩⟩
                · exact absurd chars filled
                · exact absurd chars (more first)
                · simp
              split
              · simp
              · simp
              · next notTrue notFalse =>
                  exact iff_of_true rfl ⟨long, notTrue, notFalse, trivial, trivial⟩

/-- A digit is read as an integer. -/
theorem exists_readInt?_of_isDigit {c : Char} (digit : c.isDigit) :
    ∃ value, readInt? (String.singleton c) = some value := by
  have digital : ∀ d ∈ [c], d.isDigit := by simpa using digit
  have read : signedDigits? [c] = some (digitsValue [c] : Int) :=
    signedDigits?_of_splitSign (splitSign_of_isDigit digital) (List.cons_ne_nil c []) digital
  have small : digitsValue [c] ≤ 9 := by
    simp only [Char.isDigit, Bool.and_eq_true, decide_eq_true_eq] at digit
    have upper : c.toNat ≤ 57 := digit.2
    have zero : '0'.toNat = 48 := rfl
    simp only [digitsValue, List.foldl_cons, List.foldl_nil]
    omega
  rw [readInt?, String.toList_singleton, read, Option.bind_some, if_pos]
  · exact ⟨_, rfl⟩
  · rw [Int32.toInt_minValue, Int32.toInt_maxValue]
    omega

/-- A character is an answer of its own kind exactly if it is no digit. -/
theorem ofInput?_singleton_iff {c : Char} :
    ofInput? (String.singleton c) = some (.char c) ↔ ¬c.isDigit := by
  constructor
  · intro asked digit
    obtain ⟨value, read⟩ := exists_readInt?_of_isDigit digit
    rw [ofInput?_of_int read] at asked
    cases asked
  · intro other
    have digitFree : ∀ d ∈ (String.singleton c).toList, ¬d.isDigit := by simpa using other
    unfold ofInput?
    rw [readInt?_eq_none digitFree, readDouble?_eq_none digitFree, String.toList_singleton]

/-! ### Values and their texts -/

theorem ofInput?_text_int (value : Int32) : ofInput? (text (.int value)) = some (.int value) :=
  ofInput?_of_int (readInt?_toString value)

theorem ofInput?_text_bool (value : Bool) : ofInput? (text (.bool value)) = some (.bool value) := by
  cases value <;> rfl

/-- A value other than a double is what its text is read as exactly if it is an integer, a truth
value, a character that is no digit, or a string of at least two characters that is neither a
boolean word nor read as a number. -/
theorem ofInput?_text_iff (scalar : Scalar) (other : scalar.kind ≠ .double) :
    ofInput? scalar.text = some scalar ↔
      (∃ value, scalar = .int value) ∨
      (∃ value, scalar = .bool value) ∨
      (∃ c, scalar = .char c ∧ ¬c.isDigit) ∨
      ∃ line, scalar = .string line ∧ 2 ≤ line.length ∧ line ≠ "true" ∧ line ≠ "false" ∧
        readInt? line = none ∧ readDouble? line = none := by
  cases scalar with
  | int value => simp [ofInput?_text_int]
  | double value => exact absurd rfl other
  | bool value => simp [ofInput?_text_bool]
  | char c => simp only [text, ofInput?_singleton_iff]; simp
  | string line => simp only [text, ofInput?_eq_string_iff]; simp

/-- An exponent mark behind a digit makes no number, and is read back. -/
theorem ofInput?_text_of_unfinished_numeral :
    (string "1e").kind ≠ .double ∧ readInt? "1e" = none ∧ readDouble? "1e" = none ∧
      ofInput? (text (.string "1e")) = some (.string "1e") := by
  refine ⟨nofun, rfl, rfl, (ofInput?_text_iff (.string "1e") nofun).mpr ?_⟩
  exact Or.inr (Or.inr (Or.inr ⟨"1e", rfl, by decide, by decide, by decide, rfl, rfl⟩))

end Scalar
end Letterline
