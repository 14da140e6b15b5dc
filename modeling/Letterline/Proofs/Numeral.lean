/-
Module: Letterline.Proofs.Numeral
Purpose: Which characters numerals have, and that the decimal text of an integer is read
  as the integer.
Trusted boundary: none
Main exports:
  isNumeralChar, Numeral.isNumeralChar_of_ofText?, signedDigits?_toString,
  Scalar.readInt?_toString
-/
import Letterline.Scalar.Reading

namespace Letterline

/-! ### Characters -/

/-- The characters of numerals. -/
def isNumeralChar (c : Char) : Bool :=
  c.isDigit || c ∈ ['+', '-', '.', 'e', 'E']

theorem isNumeralChar_of_isDigit {c : Char} (digit : c.isDigit) : isNumeralChar c := by
  rw [isNumeralChar, digit, Bool.true_or]

/-- Only a sign is taken away. -/
theorem isNumeralChar_of_splitSign {text : List Char}
    (rest : ∀ c ∈ (splitSign text).2, isNumeralChar c) : ∀ c ∈ text, isNumeralChar c := by
  unfold splitSign at rest
  split at rest
  · exact List.forall_mem_cons.mpr ⟨rfl, rest⟩
  · exact List.forall_mem_cons.mpr ⟨rfl, rest⟩
  · exact rest

theorem isNumeralChar_of_signedDigits? {text : List Char} {value : Int}
    (read : signedDigits? text = some value) : ∀ c ∈ text, isNumeralChar c := by
  rw [signedDigits?] at read
  split at read
  next negative digits taken =>
  split at read
  · next digital =>
      rw [Bool.and_eq_true, List.all_eq_true] at digital
      refine isNumeralChar_of_splitSign fun c member => isNumeralChar_of_isDigit ?_
      rw [taken] at member
      exact digital.2 c member
  · cases read

namespace Numeral

theorem isNumeralChar_of_exponentOf? {text : List Char} {exponent : Int}
    (read : exponentOf? text = some exponent) : ∀ c ∈ text, isNumeralChar c := by
  cases text with
  | nil => nofun
  | cons mark rest =>
      rw [exponentOf?] at read
      split at read
      · next exponential =>
          refine List.forall_mem_cons.mpr ⟨?_, isNumeralChar_of_signedDigits? read⟩
          rcases exponential with rfl | rfl <;> rfl
      · cases read

/-- A text is made up of its digits and what comes behind them. -/
theorem isNumeralChar_of_dropWhile {text : List Char}
    (rest : ∀ c ∈ text.dropWhile Char.isDigit, isNumeralChar c) :
    ∀ c ∈ text, isNumeralChar c := by
  rw [← List.takeWhile_append_dropWhile (p := Char.isDigit) (l := text)]
  rw [List.forall_mem_append]
  refine ⟨fun c member => isNumeralChar_of_isDigit ?_, rest⟩
  exact List.all_eq_true.mp List.all_takeWhile c member

theorem isNumeralChar_of_ofUnsigned? {negative : Bool} {text : List Char} {numeral : Numeral}
    (read : ofUnsigned? negative text = some numeral) : ∀ c ∈ text, isNumeralChar c := by
  rw [ofUnsigned?] at read
  refine isNumeralChar_of_dropWhile ?_
  split at read
  next fraction rest split =>
  split at read
  · cases read
  · obtain ⟨exponent, readExponent, _⟩ := Option.map_eq_some_iff.mp read
    have inRest := isNumeralChar_of_exponentOf? readExponent
    split at split
    · next tail point =>
        cases split
        rw [point]
        exact List.forall_mem_cons.mpr ⟨rfl, isNumeralChar_of_dropWhile inRest⟩
    · cases split
      exact inRest

/-- A text that is read as a numeral has only characters of numerals. -/
theorem isNumeralChar_of_ofText? {text : List Char} {numeral : Numeral}
    (read : ofText? text = some numeral) : ∀ c ∈ text, isNumeralChar c :=
  isNumeralChar_of_splitSign (isNumeralChar_of_ofUnsigned? read)

end Numeral

/-! ### Integers -/

theorem digitsValue_toDigits (n : Nat) : digitsValue (Nat.toDigits 10 n) = n :=
  Nat.ofDigitChars_ten_toDigits

/-- Digits behind an optional sign are read as the number that they write. -/
theorem signedDigits?_of_splitSign {text digits : List Char} {negative : Bool}
    (taken : splitSign text = (negative, digits)) (filled : digits ≠ [])
    (digital : ∀ c ∈ digits, c.isDigit) :
    signedDigits? text =
      some (if negative then -(digitsValue digits : Int) else digitsValue digits) := by
  have all : digits.all Char.isDigit = true := List.all_eq_true.mpr digital
  have some : digits.isEmpty = false := by simpa using filled
  rw [signedDigits?, taken]
  simp only [all, some]
  rfl

theorem splitSign_of_isDigit {text : List Char} (digital : ∀ c ∈ text, c.isDigit) :
    splitSign text = (false, text) := by
  unfold splitSign
  split
  · cases digital '-' List.mem_cons_self
  · cases digital '+' List.mem_cons_self
  · rfl

/-- The decimal text of an integer is read as the integer. -/
theorem signedDigits?_toString (n : Int) : signedDigits? (toString n).toList = some n := by
  have filled (n : Nat) : Nat.toDigits 10 n ≠ [] := Nat.toDigits_ne_nil
  have digital (n : Nat) : ∀ c ∈ Nat.toDigits 10 n, c.isDigit :=
    fun c => Nat.isDigit_of_mem_toDigits (by decide) (by decide)
  rw [Int.toString_eq_repr, Int.repr_eq_if]
  split
  · next positive =>
      rw [Nat.toList_repr, signedDigits?_of_splitSign (splitSign_of_isDigit (digital _))
        (filled _) (digital _), digitsValue_toDigits, Int.toNat_of_nonneg positive]
      rfl
  · next negative =>
      have text : ("-" ++ (-n).toNat.repr).toList = '-' :: Nat.toDigits 10 (-n).toNat := by
        rw [String.toList_append, Nat.toList_repr]
        rfl
      have taken : splitSign ('-' :: Nat.toDigits 10 (-n).toNat) =
          (true, Nat.toDigits 10 (-n).toNat) := rfl
      rw [text, signedDigits?_of_splitSign taken (filled _) (digital _), digitsValue_toDigits,
        Int.toNat_of_nonneg (by omega), if_pos rfl, Int.neg_neg]

/-- The decimal text of an integer of 32 bits is read as the integer. -/
theorem Scalar.readInt?_toString (value : Int32) :
    readInt? (toString value.toInt) = some value := by
  rw [readInt?, signedDigits?_toString, Option.bind_some, if_pos, Int32.ofInt_toInt]
  exact ⟨value.minValue_le_toInt, value.toInt_le⟩

end Letterline
