/-
Module: Letterline.Proofs.JsonText
Purpose: The text of a JSON value is read as the value, in both styles.
Trusted boundary: none
Main exports:
  Json.readString_escaped, Json.readValue_write, Json.nesting_asRead, Json.ofText?_text,
  Json.Codec.documented_plain
-/
import Letterline.Proofs.JsonNumber

namespace Letterline.Json

/-!
A text is read in the order in which it was written: a reader that meets the text of a value in
front of some other text returns the value and leaves the other text.  Only what has no number is
read as something else, namely as `null`.  The fuel that is needed is measured on the text
itself: every value and every mark takes at least one character.
-/

variable {rest : List Char}

/-! ### Strings -/

theorem hexValue?_hexDigit : ∀ value < 16, hexValue? (hexDigit value) = some value := by
  decide

theorem charAt?_toNat (c : Char) : charAt? c.toNat = some c := by
  have valid : c.toNat.isValidChar := c.valid
  rw [charAt?, dif_pos valid]
  rfl

/-- A control character is read from the two digits that stand for it. -/
theorem escapedUnit?_control {c : Char} (control : c.toNat < 32) (text : List Char) :
    escapedUnit? ('0' :: '0' :: hexDigit (c.toNat / 16) :: hexDigit (c.toNat % 16) :: text) =
      some (c, text) := by
  have zero : hexValue? '0' = some 0 := by decide
  have high := hexValue?_hexDigit (c.toNat / 16) (by omega)
  have low := hexValue?_hexDigit (c.toNat % 16) (by omega)
  have sum : c.toNat / 16 * 16 + c.toNat % 16 = c.toNat := by omega
  have unit : hexUnit? ('0' :: '0' :: hexDigit (c.toNat / 16) :: hexDigit (c.toNat % 16) :: text) =
      some (c.toNat, text) := by
    simp [hexUnit?, zero, high, low, sum]
  have lowPlane : ¬ (0xD800 ≤ c.toNat ∧ c.toNat < 0xDC00) := by omega
  simp only [escapedUnit?, unit, Option.bind_eq_bind, Option.bind_some, lowPlane, if_false,
    charAt?_toNat]

/-- What is written for a character is read as the character. -/
theorem readString_escaped_append {c : Char} {fuel : Nat} {cs text : List Char}
    (read : readString fuel text = some (cs, rest)) :
    readString (fuel + 1) (escaped c ++ text) = some (c :: cs, rest) := by
  by_cases quote : c = '"'
  · subst quote; simp [escaped, readString, shortEscape?, read]
  by_cases backslash : c = '\\'
  · subst backslash; simp [escaped, readString, shortEscape?, read]
  by_cases newline : c = '\n'
  · subst newline; simp [escaped, readString, shortEscape?, read]
  by_cases carriage : c = '\r'
  · subst carriage; simp [escaped, readString, shortEscape?, read]
  by_cases tab : c = '\t'
  · subst tab; simp [escaped, readString, shortEscape?, read]
  by_cases backspace : c = '\x08'
  · subst backspace; simp [escaped, readString, shortEscape?, read]
  by_cases formFeed : c = '\x0c'
  · subst formFeed; simp [escaped, readString, shortEscape?, read]
  by_cases control : c.toNat < 32
  · simp [escaped, quote, backslash, newline, carriage, tab, backspace, formFeed, control,
      readString, escapedUnit?_control control, read]
  · simp [escaped, quote, backslash, newline, carriage, tab, backspace, formFeed, control,
      readString, read]

theorem readString_escaped {fuel : Nat} {cs : List Char} (enough : cs.length < fuel)
    (rest : List Char) :
    readString fuel (cs.flatMap escaped ++ '"' :: rest) = some (cs, rest) := by
  induction cs generalizing fuel with
  | nil =>
      cases fuel with
      | zero => cases enough
      | succ fuel => rfl
  | cons c cs inductionHypothesis =>
      cases fuel with
      | zero => cases enough
      | succ fuel =>
          rw [List.flatMap_cons, List.append_assoc]
          exact readString_escaped_append (inductionHypothesis (Nat.lt_of_succ_lt_succ enough))

/-! ### Blanks -/

@[simp] theorem dropWhile_lineBreak (style : Style) (level : Nat) (text : List Char) :
    (lineBreak style level text).dropWhile isBlank = text.dropWhile isBlank := by
  cases style with
  | compact => rfl
  | indented =>
      have blanks : ∀ c ∈ List.replicate (2 * level) ' ', isBlank c := by
        intro c member
        rw [List.eq_of_mem_replicate member]
        rfl
      rw [lineBreak, List.dropWhile_cons_of_pos rfl, List.dropWhile_append_of_pos blanks]

/-- Blanks in front of a value make no difference. -/
theorem readValue_congr {text other : List Char}
    (same : text.dropWhile isBlank = other.dropWhile isBlank) (fuel : Nat) :
    readValue fuel text = readValue fuel other := by
  cases fuel with
  | zero => rfl
  | succ fuel => rw [readValue, readValue, same]

@[simp] theorem readValue_lineBreak (fuel : Nat) (style : Style) (level : Nat)
    (text : List Char) : readValue fuel (lineBreak style level text) = readValue fuel text :=
  readValue_congr (dropWhile_lineBreak style level text) fuel

theorem dropWhile_writeColon (style : Style) (text : List Char) :
    ∃ others, (writeColon style text).dropWhile isBlank = ':' :: others ∧
      others.dropWhile isBlank = text.dropWhile isBlank := by
  cases style with
  | compact => exact ⟨text, rfl, rfl⟩
  | indented => exact ⟨' ' :: text, rfl, rfl⟩

/-! ### Values -/

/-- A number begins with a minus or a digit. -/
theorem head_of_readNumber {text : List Char} {result : Json × List Char}
    (read : readNumber text = some result) :
    ∃ c others, text = c :: others ∧ (c = '-' ∨ c.isDigit) := by
  cases text with
  | nil => simp [readNumber] at read
  | cons c others =>
      refine ⟨c, others, rfl, ?_⟩
      by_cases minus : c = '-'
      · exact Or.inl minus
      · cases digit : c.isDigit with
        | true => exact Or.inr rfl
        | false => simp [readNumber, minus, digit] at read

theorem readValue_of_number {text : List Char} {result : Json × List Char}
    (read : readNumber text = some result) (fuel : Nat) :
    readValue (fuel + 1) text = some result := by
  obtain ⟨c, others, rfl, first⟩ := head_of_readNumber read
  have start : isBlank c = false ∧ c ≠ 'n' ∧ c ≠ 't' ∧ c ≠ 'f' ∧ c ≠ '"' ∧ c ≠ '[' ∧ c ≠ '\x7b' := by
    rcases first with rfl | digit
    · decide
    · have other (mark : Char) (noDigit : mark.isDigit = false) : c ≠ mark := by
        rintro rfl
        exact absurd digit (by simp [noDigit])
      simp [isBlank, other]
  obtain ⟨noBlank, noN, noT, noF, noQuote, noBracket, noBrace⟩ := start
  rw [readValue, List.dropWhile_cons_of_neg (by simp [noBlank])]
  split <;> simp_all

theorem readValue_string {text : List Char} {cs : List Char} {fuel : Nat}
    (read : readString fuel text = some (cs, rest)) :
    readValue (fuel + 1) ('"' :: text) = some (.string (String.ofList cs), rest) := by
  simp [readValue, isBlank, read]

/-- No value begins with a closing bracket. -/
theorem readValue_closing {text others : List Char}
    (closing : text.dropWhile isBlank = ']' :: others) (fuel : Nat) :
    readValue fuel text = none := by
  cases fuel with
  | zero => rfl
  | succ fuel => simp [readValue, closing, readNumber]

/-- Once its items are read, a list is. -/
theorem readValue_array {text : List Char} {items : List Json} {fuel : Nat}
    (read : readItems fuel text = some (items, rest)) :
    readValue (fuel + 1) ('[' :: text) = some (.array items, rest) := by
  have noEnd : ∀ others, text.dropWhile isBlank ≠ ']' :: others := by
    intro others closing
    cases fuel with
    | zero => cases read
    | succ fuel => simp [readItems, readValue_closing closing] at read
  rw [readValue, List.dropWhile_cons_of_neg (by decide)]
  simp [read]

/-- Once its fields are read, an object is. -/
theorem readValue_object {text : List Char} {fields : List (String × Json)} {fuel : Nat}
    (read : readFields fuel text = some (fields, rest)) :
    readValue (fuel + 1) ('\x7b' :: text) = some (.object fields, rest) := by
  have noEnd : ∀ others, text.dropWhile isBlank ≠ '\x7d' :: others := by
    intro others closing
    cases fuel with
    | zero => cases read
    | succ fuel => simp [readFields, closing] at read
  rw [readValue, List.dropWhile_cons_of_neg (by decide)]
  simp [read]

/-! ### Items and fields -/

section Members

variable {text middle others : List Char} {fuel : Nat}

theorem readItems_last {item : Json} (read : readValue fuel text = some (item, middle))
    (closing : middle.dropWhile isBlank = ']' :: rest) :
    readItems (fuel + 1) text = some ([item], rest) := by
  simp [readItems, read, closing]

theorem readItems_more {item : Json} {items : List Json}
    (read : readValue fuel text = some (item, ',' :: others))
    (readOthers : readItems fuel others = some (items, rest)) :
    readItems (fuel + 1) text = some (item :: items, rest) := by
  simp [readItems, read, readOthers, isBlank]

variable {name : String} {value : Json} {style : Style} {level : Nat}

theorem readFields_last (enough : name.toList.length < fuel)
    (read : readValue fuel text = some (value, middle))
    (closing : middle.dropWhile isBlank = '\x7d' :: rest) :
    readFields (fuel + 1) (lineBreak style level (writeString name (writeColon style text))) =
      some ([(name, value)], rest) := by
  obtain ⟨behind, colon, blanks⟩ := dropWhile_writeColon style text
  have named := readString_escaped enough (writeColon style text)
  have valued := (readValue_congr blanks fuel).trans read
  simp [readFields, writeString, isBlank, named, colon, valued, closing]

theorem readFields_more {fields : List (String × Json)} (enough : name.toList.length < fuel)
    (read : readValue fuel text = some (value, ',' :: others))
    (readOthers : readFields fuel others = some (fields, rest)) :
    readFields (fuel + 1) (lineBreak style level (writeString name (writeColon style text))) =
      some ((name, value) :: fields, rest) := by
  obtain ⟨behind, colon, blanks⟩ := dropWhile_writeColon style text
  have named := readString_escaped enough (writeColon style text)
  have valued := (readValue_congr blanks fuel).trans read
  simp [readFields, writeString, isBlank, named, colon, valued, readOthers]

end Members

/-! ### Whole texts -/

theorem length_lineBreak (style : Style) (level : Nat) (text : List Char) :
    text.length ≤ (lineBreak style level text).length := by
  cases style <;> simp only [lineBreak, List.length_cons, List.length_append] <;> omega

theorem length_writeColon (style : Style) (text : List Char) :
    text.length < (writeColon style text).length := by
  cases style <;> simp only [writeColon, List.length_cons] <;> omega

theorem length_escaped (c : Char) : 1 ≤ (escaped c).length := by
  unfold escaped
  repeat' split
  all_goals simp

theorem length_writeString (value : String) (text : List Char) :
    value.toList.length + text.length + 2 ≤ (writeString value text).length := by
  have each : value.toList.length ≤ (value.toList.flatMap escaped).length := by
    induction value.toList with
    | nil => simp
    | cons c cs inductionHypothesis =>
        have first := length_escaped c
        simp only [List.flatMap_cons, List.length_cons, List.length_append]
        omega
  simp only [writeString, List.length_cons, List.length_append]
  omega

/-- The name of a field takes its characters, two quotes and a colon. -/
theorem length_writeName (style : Style) (level : Nat) (name : String) (text : List Char) :
    name.toList.length + text.length + 3 ≤
      (lineBreak style level (writeString name (writeColon style text))).length := by
  have colon := length_writeColon style text
  have quoted := length_writeString name (writeColon style text)
  have blanks := length_lineBreak style level (writeString name (writeColon style text))
  omega

theorem numberStops_nil : NumberStops [] := nofun

theorem length_writeDouble (value : Double) (text : List Char) :
    text.length < (writeDouble value text).length := by
  cases value with
  | finite negative magnitude =>
      obtain ⟨c, others, written, -⟩ :=
        head_of_readNumber (readNumber_double negative magnitude numberStops_nil)
      rw [List.append_nil] at written
      simp only [writeDouble, written, List.cons_append, List.length_cons, List.length_append]
      omega
  | infinite negative =>
      simp only [writeDouble, List.length_cons]
      omega
  | nan =>
      simp only [writeDouble, List.length_cons]
      omega

theorem length_writeInt (value : Int) (text : List Char) :
    text.length < ((toString value).toList ++ text).length := by
  have filled : Nat.toDigits 10 value.natAbs ≠ [] := Nat.toDigits_ne_nil
  have digits := List.length_pos_iff.mpr filled
  rw [toList_toString_int]
  simp only [List.length_append]
  omega

mutual

/-- A value takes at least one character. -/
theorem length_write (style : Style) (level : Nat) :
    ∀ (value : Json) (rest : List Char), rest.length < (write style level value rest).length
  | .null, rest => by
      simp only [write, List.length_cons]
      omega
  | .bool true, rest => by
      simp only [write, List.length_cons]
      omega
  | .bool false, rest => by
      simp only [write, List.length_cons]
      omega
  | .int value, rest => length_writeInt value rest
  | .double value, rest => length_writeDouble value rest
  | .string value, rest => by
      have bound := length_writeString value rest
      rw [write]
      omega
  | .array [], rest => by
      simp only [write, List.length_cons]
      omega
  | .array (item :: items), rest => by
      have first := length_write style (level + 1) item (writeItems style level items rest)
      have others := length_writeItems style level items rest
      have blanks := length_lineBreak style (level + 1)
        (write style (level + 1) item (writeItems style level items rest))
      simp only [write, List.length_cons]
      omega
  | .object [], rest => by
      simp only [write, List.length_cons]
      omega
  | .object ((name, value) :: fields), rest => by
      have first := length_write style (level + 1) value (writeFields style level fields rest)
      have others := length_writeFields style level fields rest
      have named := length_writeName style (level + 1) name
        (write style (level + 1) value (writeFields style level fields rest))
      simp only [write, List.length_cons]
      omega

theorem length_writeItems (style : Style) (level : Nat) :
    ∀ (items : List Json) (rest : List Char),
      rest.length < (writeItems style level items rest).length
  | [], rest => by
      have blanks := length_lineBreak style level (']' :: rest)
      rw [List.length_cons] at blanks
      rw [writeItems]
      omega
  | item :: items, rest => by
      have first := length_write style (level + 1) item (writeItems style level items rest)
      have others := length_writeItems style level items rest
      have blanks := length_lineBreak style (level + 1)
        (write style (level + 1) item (writeItems style level items rest))
      simp only [writeItems, List.length_cons]
      omega

theorem length_writeFields (style : Style) (level : Nat) :
    ∀ (fields : List (String × Json)) (rest : List Char),
      rest.length < (writeFields style level fields rest).length
  | [], rest => by
      have blanks := length_lineBreak style level ('\x7d' :: rest)
      rw [List.length_cons] at blanks
      rw [writeFields]
      omega
  | (name, value) :: fields, rest => by
      have first := length_write style (level + 1) value (writeFields style level fields rest)
      have others := length_writeFields style level fields rest
      have named := length_writeName style (level + 1) name
        (write style (level + 1) value (writeFields style level fields rest))
      simp only [writeFields, List.length_cons]
      omega

end

theorem numberStops_lineBreak (style : Style) (level : Nat) {mark : Char} {text : List Char}
    (stops : NumberStops (mark :: text)) : NumberStops (lineBreak style level (mark :: text)) := by
  cases style with
  | compact => exact stops
  | indented => simp [NumberStops, lineBreak]

theorem numberStops_writeItems (style : Style) (level : Nat) (items : List Json)
    (rest : List Char) : NumberStops (writeItems style level items rest) := by
  cases items with
  | nil => exact numberStops_lineBreak style level (by simp [NumberStops])
  | cons item items => simp [NumberStops, writeItems]

theorem numberStops_writeFields (style : Style) (level : Nat) (fields : List (String × Json))
    (rest : List Char) : NumberStops (writeFields style level fields rest) := by
  cases fields with
  | nil => exact numberStops_lineBreak style level (by simp [NumberStops])
  | cons field fields => simp [NumberStops, writeFields]

theorem readValue_writeDouble (value : Double) (stops : NumberStops rest) (fuel : Nat) :
    readValue (fuel + 1) (writeDouble value rest) = some ((double value).asRead id, rest) := by
  cases value with
  | finite negative magnitude =>
      exact readValue_of_number (readNumber_double negative magnitude stops) fuel
  | infinite negative => rfl
  | nan => rfl

mutual

/-- What is written for a value is read as the value, whatever follows it. -/
theorem readValue_write (style : Style) (level : Nat) :
    ∀ (fuel : Nat) (value : Json) (rest : List Char), value.IntegersFit → NumberStops rest →
      (write style level value rest).length ≤ fuel + rest.length →
      readValue fuel (write style level value rest) = some (value.asRead id, rest)
  | 0, value, rest, _, _, enough => by
      have taken := length_write style level value rest
      omega
  | fuel + 1, .null, rest, _, _, _ => rfl
  | fuel + 1, .bool true, rest, _, _, _ => rfl
  | fuel + 1, .bool false, rest, _, _, _ => rfl
  | fuel + 1, .int value, rest, fits, stops, _ =>
      readValue_of_number (readNumber_int fits stops) fuel
  | fuel + 1, .double value, rest, _, stops, _ => readValue_writeDouble value stops fuel
  | fuel + 1, .string value, rest, _, _, enough => by
      have length := length_writeString value rest
      rw [write] at enough
      have read := readString_escaped (by omega : value.toList.length < fuel) rest
      rw [write, writeString, readValue_string read, String.ofList_toList]
      rfl
  | fuel + 1, .array [], rest, _, _, _ => rfl
  | fuel + 1, .array (item :: items), rest, fits, _, enough => by
      simp only [write, List.length_cons] at enough
      exact readValue_array (readItems_write style level fuel item items rest fits.1 fits.2
        (by omega))
  | fuel + 1, .object [], rest, _, _, _ => rfl
  | fuel + 1, .object ((name, value) :: fields), rest, fits, _, enough => by
      have named := length_writeName style (level + 1) name
        (write style (level + 1) value (writeFields style level fields rest))
      simp only [write, List.length_cons] at enough
      exact readValue_object (readFields_write style level fuel name value fields rest fits.1 fits.2
        (by omega))

/-- What is written for the items of a list is read as the items. -/
theorem readItems_write (style : Style) (level : Nat) :
    ∀ (fuel : Nat) (item : Json) (items : List Json) (rest : List Char),
      item.IntegersFit → ItemsFit items →
      (lineBreak style (level + 1)
        (write style (level + 1) item (writeItems style level items rest))).length ≤
          fuel + rest.length →
      readItems fuel (lineBreak style (level + 1)
          (write style (level + 1) item (writeItems style level items rest))) =
        some (itemsAsRead id (item :: items), rest)
  | 0, item, items, rest, _, _, enough => by
      have blanks := length_lineBreak style (level + 1)
        (write style (level + 1) item (writeItems style level items rest))
      have taken := length_write style (level + 1) item (writeItems style level items rest)
      have others := length_writeItems style level items rest
      omega
  | fuel + 1, item, items, rest, fits, othersFit, enough => by
      have blanks := length_lineBreak style (level + 1)
        (write style (level + 1) item (writeItems style level items rest))
      have others := length_writeItems style level items rest
      have read := readValue_write style (level + 1) fuel item (writeItems style level items rest)
        fits (numberStops_writeItems style level items rest) (by omega)
      rw [← readValue_lineBreak fuel style (level + 1)] at read
      have taken := length_write style (level + 1) item (writeItems style level items rest)
      have left : (writeItems style level items rest).length ≤ fuel + rest.length := by omega
      cases items with
      | nil => exact readItems_last read (dropWhile_lineBreak style level _)
      | cons next items =>
          simp only [writeItems, List.length_cons] at left
          exact readItems_more read (readItems_write style level fuel next items rest
            othersFit.1 othersFit.2 (by omega))

/-- What is written for the fields of an object is read as the fields. -/
theorem readFields_write (style : Style) (level : Nat) :
    ∀ (fuel : Nat) (name : String) (value : Json) (fields : List (String × Json))
      (rest : List Char), value.IntegersFit → FieldsFit fields →
      (lineBreak style (level + 1) (writeString name (writeColon style
        (write style (level + 1) value (writeFields style level fields rest))))).length ≤
          fuel + rest.length →
      readFields fuel (lineBreak style (level + 1) (writeString name (writeColon style
          (write style (level + 1) value (writeFields style level fields rest))))) =
        some (fieldsAsRead id ((name, value) :: fields), rest)
  | 0, name, value, fields, rest, _, _, enough => by
      have named := length_writeName style (level + 1) name
        (write style (level + 1) value (writeFields style level fields rest))
      have taken := length_write style (level + 1) value (writeFields style level fields rest)
      have others := length_writeFields style level fields rest
      omega
  | fuel + 1, name, value, fields, rest, fits, othersFit, enough => by
      have named := length_writeName style (level + 1) name
        (write style (level + 1) value (writeFields style level fields rest))
      have taken := length_write style (level + 1) value (writeFields style level fields rest)
      have others := length_writeFields style level fields rest
      have read := readValue_write style (level + 1) fuel value
        (writeFields style level fields rest) fits
        (numberStops_writeFields style level fields rest) (by omega)
      have nameShort : name.toList.length < fuel := by omega
      have left : (writeFields style level fields rest).length ≤ fuel + rest.length := by omega
      cases fields with
      | nil => exact readFields_last nameShort read (dropWhile_lineBreak style level _)
      | cons field fields =>
          rcases field with ⟨nextName, next⟩
          simp only [writeFields, List.length_cons] at left
          exact readFields_more nameShort read (readFields_write style level fuel nextName next
            fields rest othersFit.1 othersFit.2 (by omega))

end

/-! ### Nesting -/

mutual

/-- What is read is nested as deep as what was written. -/
theorem nesting_asRead (reread : Double → Double) :
    ∀ value : Json, (value.asRead reread).nesting = value.nesting
  | .null => rfl
  | .bool _ => rfl
  | .int _ => rfl
  | .double (.finite ..) => rfl
  | .double (.infinite _) => rfl
  | .double .nan => rfl
  | .string _ => rfl
  | .array items => by rw [asRead, nesting, nesting, itemsNesting_asRead reread items]
  | .object fields => by rw [asRead, nesting, nesting, fieldsNesting_asRead reread fields]

theorem itemsNesting_asRead (reread : Double → Double) :
    ∀ items : List Json, itemsNesting (itemsAsRead reread items) = itemsNesting items
  | [] => by rw [itemsAsRead]
  | item :: items => by
      rw [itemsAsRead, itemsNesting, itemsNesting, nesting_asRead reread item,
        itemsNesting_asRead reread items]

theorem fieldsNesting_asRead (reread : Double → Double) :
    ∀ fields : List (String × Json), fieldsNesting (fieldsAsRead reread fields) = fieldsNesting fields
  | [] => by rw [fieldsAsRead]
  | (name, value) :: fields => by
      rw [fieldsAsRead, fieldsNesting, fieldsNesting, nesting_asRead reread value,
        fieldsNesting_asRead reread fields]

end

/-- The text of a value is read as what it says of the value, unless it is nested too deep. -/
theorem ofText?_text (style : Style) {value : Json} (fits : value.IntegersFit) :
    ofText? (value.text style) =
      if value.nesting < nestingLimit then some (value.asRead id) else none := by
  have read := readValue_write style 0 (2 * (write style 0 value []).length + 2) value []
    fits numberStops_nil (by omega)
  simp [ofText?, text, read, nesting_asRead]

/-- The codec of this library keeps what is documented, and reads every finite double exactly. -/
theorem Codec.documented_plain : Codec.plain.Documented id where
  reads style _ fits shallow := (ofText?_text style fits).trans (if_pos shallow)
  refuses style _ fits deep := (ofText?_text style fits).trans (if_neg (Nat.not_lt.mpr deep))

end Letterline.Json
