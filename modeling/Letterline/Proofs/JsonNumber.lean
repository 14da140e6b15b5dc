/-
Module: Letterline.Proofs.JsonNumber
Purpose: The text of a number is read as the number, whatever follows it.
Trusted boundary: none
Main exports:
  Json.NumberStops, Json.readNumber_of_parts, Json.readNumber_int, Json.readNumber_double
-/
import Letterline.Json.Codec
import Letterline.Proofs.Numeral
import Letterline.Proofs.Rounding

namespace Letterline

/-!
A number is written as a sign, digits, a fraction and an exponent, and is read in these four
parts.  An integer has digits only.  A double has always a fraction or an exponent, so it is
never read as an integer, and what its parts write is a numeral of the same value as its
shortest digits, however they were laid out.
-/

/-! ### Digits -/

/-- A text that does not begin with a digit. -/
def DigitFree (text : List Char) : Prop :=
  ∀ c ∈ text.head?, c.isDigit = false

theorem takeWhile_digits {digits rest : List Char} (digital : ∀ c ∈ digits, c.isDigit)
    (free : DigitFree rest) : (digits ++ rest).takeWhile Char.isDigit = digits := by
  rw [List.takeWhile_append_of_pos digital]
  cases rest with
  | nil => simp
  | cons c rest => simp [free c rfl]

theorem dropWhile_digits {digits rest : List Char} (digital : ∀ c ∈ digits, c.isDigit)
    (free : DigitFree rest) : (digits ++ rest).dropWhile Char.isDigit = rest := by
  rw [List.dropWhile_append_of_pos digital]
  cases rest with
  | nil => simp
  | cons c rest => simp [free c rfl]

theorem digitsValue_eq (digits : List Char) : digitsValue digits = Nat.ofDigitChars 10 digits 0 :=
  Nat.ofDigitChars_eq_foldl.symm

/-- Zeros behind digits multiply by ten. -/
theorem digitsValue_append_zeros (digits : List Char) (count : Nat) :
    digitsValue (digits ++ List.replicate count '0') = digitsValue digits * Nat.pow 10 count := by
  rw [digitsValue_eq, digitsValue_eq, Nat.ofDigitChars_append, Nat.ofDigitChars_replicate_zero,
    Nat.mul_comm]
  rfl

/-- Zeros in front of digits write nothing. -/
theorem digitsValue_zeros_append (digits : List Char) (count : Nat) :
    digitsValue (List.replicate count '0' ++ digits) = digitsValue digits := by
  rw [digitsValue_eq, digitsValue_eq, Nat.ofDigitChars_append, Nat.ofDigitChars_replicate_zero,
    Nat.mul_zero]

theorem isDigit_of_mem_toDigits {n : Nat} : ∀ c ∈ Nat.toDigits 10 n, c.isDigit :=
  fun _ => Nat.isDigit_of_mem_toDigits (by decide) (by decide)

/-- Only the number zero begins with a zero. -/
theorem head?_toDigits {n : Nat} (filled : n ≠ 0) : (Nat.toDigits 10 n).head? ≠ some '0' := by
  induction n using Nat.strongRecOn with
  | ind n inductionHypothesis =>
      by_cases small : n < 10
      · have nonzero : ∀ digit < 10, digit ≠ 0 → Nat.digitChar digit ≠ '0' := by decide
        simpa [Nat.toDigits_of_lt_base small] using nonzero n small filled
      · have shorter : (Nat.toDigits 10 (n / 10)).head? ≠ some '0' :=
          inductionHypothesis (n / 10) (by omega) (by omega)
        rw [Nat.toDigits_of_base_le (by decide) (by omega), List.head?_append]
        cases first : (Nat.toDigits 10 (n / 10)).head? with
        | none => exact absurd (List.head?_eq_none_iff.mp first) Nat.toDigits_ne_nil
        | some digit => rwa [first] at shorter

/-- Digits without a needless zero in front. -/
structure WholeDigits (digits : List Char) : Prop where
  filled : digits ≠ []
  digital : ∀ c ∈ digits, c.isDigit
  trimmed : digits.head? = some '0' → digits.length = 1

theorem wholeDigits_of_head {digits : List Char} (filled : digits ≠ [])
    (digital : ∀ c ∈ digits, c.isDigit) (noZero : digits.head? ≠ some '0') :
    WholeDigits digits :=
  ⟨filled, digital, fun zero => absurd zero noZero⟩

theorem wholeDigits_zero : WholeDigits ['0'] :=
  ⟨by simp, by simp, by simp⟩

theorem wholeDigits_toDigits (n : Nat) : WholeDigits (Nat.toDigits 10 n) where
  filled := Nat.toDigits_ne_nil
  digital := isDigit_of_mem_toDigits
  trimmed zero := by
    by_cases filled : n = 0
    · simp [filled]
    · exact absurd zero (head?_toDigits filled)

/-! ### Reading the parts of a number -/

namespace Json

open Double.Layout (sign)

/-- A text that does not go on with a number in front of it. -/
def NumberStops (text : List Char) : Prop :=
  ∀ c ∈ text.head?, c.isDigit = false ∧ c ≠ '.' ∧ c ≠ 'e' ∧ c ≠ 'E'

/-- The text of a fraction. -/
def fractionText : List Char → List Char
  | [] => []
  | fraction => '.' :: fraction

theorem fractionText_of_ne_nil {fraction : List Char} (filled : fraction ≠ []) :
    fractionText fraction = '.' :: fraction := by
  cases fraction with
  | nil => exact absurd rfl filled
  | cons digit others => rfl

/-- The text of an exponent. -/
def exponentText : Option Int → List Char
  | none => []
  | some exponent =>
      'e' :: ((if exponent < 0 then ['-'] else ['+']) ++ Nat.toDigits 10 exponent.natAbs)

variable {rest : List Char}

theorem NumberStops.digitFree (stops : NumberStops rest) : DigitFree rest :=
  fun c member => (stops c member).1

theorem readExponent_exponentText (stops : NumberStops rest) (exponent : Option Int) :
    readExponent (exponentText exponent ++ rest) = some (exponent, rest) := by
  cases exponent with
  | none =>
      cases rest with
      | nil => rfl
      | cons c rest => simp [exponentText, readExponent, stops c rfl]
  | some exponent =>
      have taken : splitSign ((if exponent < 0 then ['-'] else ['+']) ++
          Nat.toDigits 10 exponent.natAbs ++ rest) =
            (decide (exponent < 0), Nat.toDigits 10 exponent.natAbs ++ rest) := by
        by_cases negative : exponent < 0 <;> simp [negative, splitSign]
      have filled : (Nat.toDigits 10 exponent.natAbs).isEmpty = false := by simp
      have value : (if exponent < 0 then -(exponent.natAbs : Int) else exponent.natAbs) =
          exponent := by omega
      simp only [exponentText, List.cons_append, readExponent, taken, true_or, if_true,
        takeWhile_digits isDigit_of_mem_toDigits stops.digitFree,
        dropWhile_digits isDigit_of_mem_toDigits stops.digitFree, filled, digitsValue_toDigits]
      simp only [Bool.false_eq_true, if_false, decide_eq_true_eq, value]

theorem exponentText_append_head (stops : NumberStops rest) (exponent : Option Int) :
    ∀ c ∈ (exponentText exponent ++ rest).head?, c.isDigit = false ∧ c ≠ '.' := by
  cases exponent with
  | none => exact fun c member => ⟨(stops c member).1, (stops c member).2.1⟩
  | some exponent => simp [exponentText]

theorem readFraction_fractionText {fraction : List Char} (digital : ∀ c ∈ fraction, c.isDigit)
    (behind : ∀ c ∈ rest.head?, c.isDigit = false ∧ c ≠ '.') :
    readFraction (fractionText fraction ++ rest) = some (fraction, rest) := by
  have free : DigitFree rest := fun c member => (behind c member).1
  cases fraction with
  | nil =>
      cases rest with
      | nil => rfl
      | cons c rest =>
          have noPoint := (behind c rfl).2
          simp only [fractionText, List.nil_append]
          unfold readFraction
          split
          · next point => cases point; exact absurd rfl noPoint
          · rfl
  | cons digit others =>
      simp only [fractionText, List.cons_append, readFraction]
      rw [← List.cons_append, takeWhile_digits digital free, dropWhile_digits digital free]
      rfl

/-- A number is read part by part, and nothing behind it is touched. -/
theorem readNumber_of_parts (negative : Bool) {whole fraction : List Char}
    (wholeDigits : WholeDigits whole) (fractionDigits : ∀ c ∈ fraction, c.isDigit)
    {exponent : Option Int} (stops : NumberStops rest) {value : Json}
    (read : numberOf? negative whole fraction exponent = some value) :
    readNumber (sign negative ++ whole ++ fractionText fraction ++ exponentText exponent ++ rest) =
      some (value, rest) := by
  have behind := exponentText_append_head stops exponent
  have free : DigitFree (fractionText fraction ++ (exponentText exponent ++ rest)) := by
    cases fraction with
    | nil => exact fun c member => (behind c member).1
    | cons digit others => simp [DigitFree, fractionText]
  have needless : (whole.isEmpty || (whole.head? == some '0' && whole.length != 1)) = false := by
    have filled := wholeDigits.filled
    have trimmed := wholeDigits.trimmed
    simpa [filled] using trimmed
  have noMinus : ∀ others, whole ++ (fractionText fraction ++ (exponentText exponent ++ rest)) ≠
      '-' :: others := by
    intro others same
    cases whole with
    | nil => exact wholeDigits.filled rfl
    | cons digit digits =>
        cases same
        exact absurd (wholeDigits.digital '-' List.mem_cons_self) (by decide)
  have taken := takeWhile_digits wholeDigits.digital free
  have dropped := dropWhile_digits wholeDigits.digital free
  have fractionRead := readFraction_fractionText fractionDigits behind
  have exponentRead := readExponent_exponentText stops exponent
  cases negative with
  | true => simp [readNumber, sign, taken, dropped, needless, fractionRead, exponentRead, read]
  | false => simp [readNumber, sign, taken, dropped, needless, fractionRead, exponentRead, read]

/-! ### Integers -/

theorem toList_toString_int (value : Int) :
    (toString value).toList = sign (decide (value < 0)) ++ Nat.toDigits 10 value.natAbs := by
  rw [Int.toString_eq_repr, Int.repr_eq_if]
  by_cases negative : value < 0
  · have minus : (-value).toNat = value.natAbs := by omega
    simp [Int.not_le.mpr negative, negative, sign, minus]
  · have plus : value.toNat = value.natAbs := by omega
    simp [Int.not_lt.mp negative, negative, sign, plus]

theorem readNumber_int {value : Int} (fits : Fits value) (stops : NumberStops rest) :
    readNumber ((toString value).toList ++ rest) = some (.int value, rest) := by
  have signed : (if value < 0 then -(value.natAbs : Int) else value.natAbs) = value := by omega
  have read : numberOf? (decide (value < 0)) (Nat.toDigits 10 value.natAbs) [] none =
      some (.int value) := by
    have plain : (decide (value < 0) && value == 0) = false := by
      by_cases zero : value = 0 <;> simp [zero]
    simp only [numberOf?, digitsValue_toDigits, decide_eq_true_eq, signed, plain,
      List.isEmpty_nil, Option.isNone_none, Bool.not_false, Bool.and_true]
    exact if_pos ⟨trivial, fits⟩
  have noFraction : ∀ c ∈ ([] : List Char), c.isDigit := nofun
  have parts := readNumber_of_parts (decide (value < 0)) (wholeDigits_toDigits value.natAbs)
    noFraction stops read
  rw [toList_toString_int]
  simpa [fractionText, exponentText] using parts

/-! ### Doubles -/

open Double (Magnitude)
open Double.Layout (withoutTrailingZeros)

/-- The digits of a positive number without the zeros at their end. -/
theorem exists_withoutTrailingZeros {n : Nat} (filled : n ≠ 0) :
    ∃ count, Nat.toDigits 10 n =
        withoutTrailingZeros (Nat.toDigits 10 n) ++ List.replicate count '0' ∧
      WholeDigits (withoutTrailingZeros (Nat.toDigits 10 n)) ∧
      (withoutTrailingZeros (Nat.toDigits 10 n)).head? ≠ some '0' := by
  generalize kept : withoutTrailingZeros (Nat.toDigits 10 n) = digits
  obtain ⟨count, parts⟩ : ∃ count, Nat.toDigits 10 n = digits ++ List.replicate count '0' := by
    refine ⟨((Nat.toDigits 10 n).reverse.takeWhile (· == '0')).length, ?_⟩
    have zeros : (Nat.toDigits 10 n).reverse.takeWhile (· == '0') =
        List.replicate ((Nat.toDigits 10 n).reverse.takeWhile (· == '0')).length '0' := by
      refine List.eq_replicate_iff.mpr ⟨rfl, fun c member => ?_⟩
      simpa using List.all_eq_true.mp List.all_takeWhile c member
    have split := congrArg List.reverse
      (List.takeWhile_append_dropWhile (p := (· == '0')) (l := (Nat.toDigits 10 n).reverse))
    rw [List.reverse_append, List.reverse_reverse, zeros, List.reverse_replicate] at split
    rw [← kept]
    exact split.symm
  have head := head?_toDigits filled
  rw [parts, List.head?_append] at head
  have digital : ∀ c ∈ digits, c.isDigit := by
    intro c member
    refine isDigit_of_mem_toDigits (n := n) c ?_
    rw [parts]
    exact List.mem_append_left _ member
  cases digits with
  | cons digit others =>
      have noZero : (digit :: others).head? ≠ some '0' := by simpa using head
      exact ⟨count, parts, wholeDigits_of_head (by simp) digital noZero, noZero⟩
  | nil =>
      -- a number of which only zeros are left is zero
      have value := digitsValue_toDigits n
      rw [parts, List.nil_append, ← List.append_nil (List.replicate count '0'),
        digitsValue_zeros_append] at value
      exact absurd value.symm filled

theorem numberOf?_double {negative : Bool} {whole fraction : List Char} (exponent : Option Int)
    {magnitude : Magnitude} (noInteger : fraction ≠ [] ∨ exponent.isSome)
    (denotes : Numeral.toDouble ⟨negative, digitsValue (whole ++ fraction),
      exponent.getD 0 - fraction.length⟩ = .finite negative magnitude) :
    numberOf? negative whole fraction exponent = some (.double (.finite negative magnitude)) := by
  have notWhole : (fraction.isEmpty && exponent.isNone) = false := by
    rcases noInteger with filled | given
    · simp [filled]
    · cases exponent <;> simp_all
  simp [numberOf?, notWhole, denotes]

section Layout

variable {digits : List Char} {place : Int} {negative : Bool} {magnitude : Magnitude}

/-- A number with a point is read as the digits on both sides of it write. -/
theorem readNumber_of_point {whole fraction : List Char} (wholeDigits : WholeDigits whole)
    (fractionDigits : ∀ c ∈ fraction, c.isDigit) (filled : fraction ≠ [])
    (denotes : Numeral.toDouble ⟨negative, digitsValue (whole ++ fraction), -fraction.length⟩ =
      .finite negative magnitude) (stops : NumberStops rest) :
    readNumber (sign negative ++ (whole ++ '.' :: fraction) ++ rest) =
      some (.double (.finite negative magnitude), rest) := by
  have read := numberOf?_double none (Or.inl filled) (by simpa using denotes)
  have parts := readNumber_of_parts negative wholeDigits fractionDigits stops read
  simpa [fractionText_of_ne_nil filled, exponentText] using parts

/-- Digits behind zeros that begin behind the point. -/
theorem readNumber_behind_zeros {zeros : Nat} (whole : WholeDigits digits)
    (leading : place + digits.length - 1 = .negSucc zeros)
    (denotes : Numeral.toDouble ⟨negative, digitsValue digits, place⟩ =
      .finite negative magnitude) (stops : NumberStops rest) :
    readNumber (sign negative ++ numberLayout.positional digits (.negSucc zeros) ++ rest) =
      some (.double (.finite negative magnitude), rest) := by
  have fractionDigits : ∀ c ∈ List.replicate zeros '0' ++ digits, c.isDigit := by
    simpa [or_imp, forall_and] using whole.digital
  have exponent : (-(List.replicate zeros '0' ++ digits).length : Int) = place := by
    simp only [List.length_append, List.length_replicate]
    omega
  have value : digitsValue (['0'] ++ (List.replicate zeros '0' ++ digits)) =
      digitsValue digits := digitsValue_zeros_append digits (zeros + 1)
  refine readNumber_of_point wholeDigits_zero fractionDigits (by simp [whole.filled]) ?_ stops
  rw [value, exponent]
  exact denotes

/-- Digits with the point between two of them. -/
theorem readNumber_around_point {last : Nat} (whole : WholeDigits digits)
    (noZero : digits.head? ≠ some '0') (leading : place + digits.length = (last : Int) + 1)
    (inside : last + 1 < digits.length)
    (denotes : Numeral.toDouble ⟨negative, digitsValue digits, place⟩ =
      .finite negative magnitude) (stops : NumberStops rest) :
    readNumber (sign negative ++ numberLayout.positional digits (.ofNat last) ++ rest) =
      some (.double (.finite negative magnitude), rest) := by
  have written : numberLayout.positional digits (.ofNat last) =
      digits.take (last + 1) ++ '.' :: digits.drop (last + 1) := by
    have none : last + 1 - digits.length = 0 := by omega
    simp [Double.Layout.positional, none, inside]
  have wholeDigits : WholeDigits (digits.take (last + 1)) :=
    wholeDigits_of_head (by simp [whole.filled])
      (fun c member => whole.digital c (List.mem_of_mem_take member))
      (by simpa [List.head?_take] using noZero)
  have exponent : (-(digits.drop (last + 1)).length : Int) = place := by
    simp only [List.length_drop]
    omega
  rw [written]
  refine readNumber_of_point wholeDigits
    (fun c member => whole.digital c (List.mem_of_mem_drop member)) (by simpa using inside) ?_
    stops
  rw [List.take_append_drop, exponent]
  exact denotes

/-- Digits with zeros up to the point. -/
theorem readNumber_before_zeros {last : Nat} (whole : WholeDigits digits)
    (noZero : digits.head? ≠ some '0') (leading : place + digits.length = (last : Int) + 1)
    (outside : digits.length ≤ last + 1)
    (denotes : Numeral.toDouble ⟨negative, digitsValue digits, place⟩ =
      .finite negative magnitude) (stops : NumberStops rest) :
    readNumber (sign negative ++ numberLayout.positional digits (.ofNat last) ++ rest) =
      some (.double (.finite negative magnitude), rest) := by
  generalize count : last + 1 - digits.length = zeros
  have written : numberLayout.positional digits (.ofNat last) =
      (digits ++ List.replicate zeros '0') ++ ['.', '0'] := by
    simp [Double.Layout.positional, outside, numberLayout, List.take_of_length_le outside, count]
  have zerosDigits : ∀ c ∈ digits ++ List.replicate zeros '0', c.isDigit := by
    simpa [or_imp, forall_and] using whole.digital
  have wholeDigits : WholeDigits (digits ++ List.replicate zeros '0') :=
    wholeDigits_of_head (by simp [whole.filled]) zerosDigits
      (by simpa [List.head?_append, whole.filled] using noZero)
  have value : digitsValue (digits ++ List.replicate zeros '0' ++ ['0']) =
      digitsValue digits * Nat.pow 10 (zeros + 1) := by
    rw [← digitsValue_append_zeros, List.replicate_succ', List.append_assoc]
  have exponent : (-(['0'].length : Int)) + (zeros + 1 : Nat) = place := by
    simp only [List.length_singleton]
    omega
  rw [written]
  refine readNumber_of_point wholeDigits (by simp) (by simp) ?_ stops
  rw [value, Numeral.toDouble_shifted, exponent]
  exact denotes

/-- Digits that are laid out positionally are read as what they write at their place. -/
theorem readNumber_positional (whole : WholeDigits digits) (noZero : digits.head? ≠ some '0')
    (denotes : Numeral.toDouble ⟨negative, digitsValue digits, place⟩ =
      .finite negative magnitude) (stops : NumberStops rest) :
    readNumber (sign negative ++ numberLayout.positional digits (place + digits.length - 1)
        ++ rest) =
      some (.double (.finite negative magnitude), rest) := by
  cases leading : place + digits.length - 1 with
  | negSucc zeros => exact readNumber_behind_zeros whole leading denotes stops
  | ofNat last =>
      have length : place + digits.length = (last : Int) + 1 := by
        have split : place + digits.length - 1 = (last : Int) := leading
        omega
      by_cases inside : last + 1 < digits.length
      · exact readNumber_around_point whole noZero length inside denotes stops
      · exact readNumber_before_zeros whole noZero length (Nat.not_lt.mp inside) denotes stops

/-- Digits that are laid out with an exponent are read as what they write at their place. -/
theorem readNumber_scientific (whole : WholeDigits digits)
    (denotes : Numeral.toDouble ⟨negative, digitsValue digits, place⟩ =
      .finite negative magnitude) (stops : NumberStops rest) :
    readNumber (sign negative ++ numberLayout.scientific digits (place + digits.length - 1)
        ++ rest) =
      some (.double (.finite negative magnitude), rest) := by
  obtain ⟨digit, others, rfl⟩ := List.exists_cons_of_ne_nil whole.filled
  generalize leading : place + (digit :: others).length - 1 = exponent
  have first : WholeDigits [digit] :=
    ⟨by simp, by simpa using whole.digital digit List.mem_cons_self, by simp⟩
  have othersDigits : ∀ c ∈ others, c.isDigit :=
    fun c member => whole.digital c (List.mem_cons_of_mem digit member)
  have written : numberLayout.scientific (digit :: others) exponent =
      [digit] ++ fractionText others ++ exponentText (some exponent) := by
    cases others <;> simp [Double.Layout.scientific, fractionText, exponentText, numberLayout]
  have atPlace : exponent - others.length = place := by
    simp only [List.length_cons] at leading
    omega
  have read : numberOf? negative [digit] others (some exponent) =
      some (.double (.finite negative magnitude)) :=
    numberOf?_double (some exponent) (Or.inr rfl) (by simpa [atPlace] using denotes)
  have parts := readNumber_of_parts negative first othersDigits stops read
  rw [written]
  simpa using parts

end Layout

/-- The number of a finite double is read as the double. -/
theorem readNumber_double (negative : Bool) (magnitude : Magnitude) (stops : NumberStops rest) :
    readNumber (numberLayout.write (.finite negative magnitude) ++ rest) =
      some (.double (.finite negative magnitude), rest) := by
  simp only [Double.Layout.write, Double.Layout.writeMagnitude]
  split
  · next nothing =>
      have zero : Numeral.toDouble ⟨negative, digitsValue ['0', '0'], -['0'].length⟩ =
          .finite negative magnitude := by
        rcases magnitude with ⟨quanta, representable⟩
        cases nothing
        rfl
      exact readNumber_of_point wholeDigits_zero (by simp) (by simp) zero stops
  · next something =>
      generalize found : magnitude.shortest numberLayout.tie = numeral
      have unsigned : numeral.toDouble = .finite false magnitude :=
        found ▸ magnitude.toDouble_shortest numberLayout.tie
      have filled : numeral.coefficient ≠ 0 := by
        intro empty
        rw [Numeral.toDouble, if_pos empty, Double.zero, Double.finite.injEq] at unsigned
        exact something (congrArg Magnitude.quanta unsigned.2.symm)
      obtain ⟨count, parts, whole, noZero⟩ := exists_withoutTrailingZeros filled
      generalize withoutTrailingZeros (Nat.toDigits 10 numeral.coefficient) = digits at *
      have value : numeral.coefficient = digitsValue digits * Nat.pow 10 count := by
        rw [← digitsValue_append_zeros, ← parts, digitsValue_toDigits]
      have length : (Nat.toDigits 10 numeral.coefficient).length = digits.length + count := by
        rw [parts, List.length_append, List.length_replicate]
      -- the zeros that are not written count in the place of the last digit
      have denotes : Numeral.toDouble ⟨negative, digitsValue digits, numeral.exponent + count⟩ =
          .finite negative magnitude := by
        rw [← Numeral.toDouble_shifted, ← value]
        exact Numeral.toDouble_signed negative unsigned
      have leading : numeral.exponent + (Nat.toDigits 10 numeral.coefficient).length - 1 =
          numeral.exponent + count + digits.length - 1 := by omega
      rw [leading]
      split
      · exact readNumber_positional whole noZero denotes stops
      · exact readNumber_scientific whole denotes stops

end Json
end Letterline
