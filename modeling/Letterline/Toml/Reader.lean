/-
Module: Letterline.Toml.Reader
Purpose: Reading TOML documents.
Trusted boundary: none
Main exports:
  Toml.readValue, Toml.ofText?
-/
import Letterline.Json.Reader
import Letterline.Toml

namespace Letterline.Toml

/-!
Readers take the text that is left and return what remains.  They are given fuel, of
which a text needs no more than its length allows.
-/

/-! ### Blanks and line ends -/

/-- The blanks inside a line. -/
def isBlank (c : Char) : Bool :=
  c == ' ' || c == '\t'

/-- The text behind blanks. -/
def skipBlanks (text : List Char) : List Char :=
  text.dropWhile isBlank

/-- Characters that may not stand unescaped in strings and comments. -/
def isControl (c : Char) : Bool :=
  (c.toNat < 32 && c != '\t') || c.toNat == 127

/-- The text behind a comment, if one stands here. -/
def skipComment : List Char → List Char
  | '#' :: rest => rest.dropWhile fun c => !isControl c
  | text => text

/-- The text behind the end of a line. -/
def lineEnd? : List Char → Option (List Char)
  | [] => some []
  | '\n' :: rest => some rest
  | '\r' :: '\n' :: rest => some rest
  | _ => none

/-- The text behind blanks, a comment and the end of the line. -/
def finishLine? (text : List Char) : Option (List Char) :=
  lineEnd? (skipComment (skipBlanks text))

/-- The text behind blanks, comments and line ends. -/
def skipLines : (fuel : Nat) → List Char → List Char
  | 0, text => text
  | fuel + 1, text =>
      match skipComment (skipBlanks text) with
      | '\n' :: rest => skipLines fuel rest
      | '\r' :: '\n' :: rest => skipLines fuel rest
      | rest => rest

/-! ### Strings -/

/-- The number that hexadecimal digits write. -/
def hexNumber? : (count : Nat) → (value : Nat) → List Char → Option (Nat × List Char)
  | 0, value, rest => some (value, rest)
  | _ + 1, _, [] => none
  | count + 1, value, c :: rest =>
      match Json.hexValue? c with
      | none => none
      | some digit => hexNumber? count (value * 16 + digit) rest

/-- The character of an escape, behind the backslash. -/
def escape? : List Char → Option (Char × List Char)
  | 'b' :: rest => some ('\x08', rest)
  | 't' :: rest => some ('\t', rest)
  | 'n' :: rest => some ('\n', rest)
  | 'f' :: rest => some ('\x0c', rest)
  | 'r' :: rest => some ('\r', rest)
  | '"' :: rest => some ('"', rest)
  | '\\' :: rest => some ('\\', rest)
  | 'u' :: rest => do
      let (codepoint, rest) ← hexNumber? 4 0 rest
      let c ← Json.charAt? codepoint
      some (c, rest)
  | 'U' :: rest => do
      let (codepoint, rest) ← hexNumber? 8 0 rest
      let c ← Json.charAt? codepoint
      some (c, rest)
  | _ => none

/-- A string in double quotes on one line, behind the opening quote. -/
def readBasic : (fuel : Nat) → List Char → Option (List Char × List Char)
  | 0, _ => none
  | _ + 1, [] => none
  | _ + 1, '"' :: rest => some ([], rest)
  | fuel + 1, '\\' :: rest => do
      let (c, rest) ← escape? rest
      let (cs, rest) ← readBasic fuel rest
      some (c :: cs, rest)
  | fuel + 1, c :: rest =>
      if isControl c then none
      else do
        let (cs, rest) ← readBasic fuel rest
        some (c :: cs, rest)

/-- A string in single quotes on one line, behind the opening quote. -/
def readLiteral : List Char → Option (List Char × List Char)
  | [] => none
  | c :: rest =>
      if c = '\'' then some ([], rest)
      else if isControl c then none
      else (readLiteral rest).map fun (cs, rest) => (c :: cs, rest)

/-- The text behind the blanks and line ends that a backslash at the end of a line
removes.  There is a line end among them. -/
def joinLines? (text : List Char) : Option (List Char) :=
  match skipBlanks text with
  | '\n' :: rest => some (rest.dropWhile fun c => isBlank c || c == '\n' || c == '\r')
  | '\r' :: '\n' :: rest => some (rest.dropWhile fun c => isBlank c || c == '\n' || c == '\r')
  | _ => none

/-- A string over several lines, behind the opening quotes.  It is closed by three
quotes, before which two more may stand that belong to it. -/
def readLines (quote : Char) (escapes : Bool) :
    (fuel : Nat) → List Char → Option (List Char × List Char)
  | 0, _ => none
  | fuel + 1, text =>
      let quotes := (text.takeWhile (· == quote)).length
      if 3 ≤ quotes then
        if quotes ≤ 5 then some (List.replicate (quotes - 3) quote, text.drop quotes)
        else none
      else
        match text with
        | [] => none
        | '\n' :: rest => do
            let (cs, rest) ← readLines quote escapes fuel rest
            some ('\n' :: cs, rest)
        | '\r' :: '\n' :: rest => do
            let (cs, rest) ← readLines quote escapes fuel rest
            some ('\n' :: cs, rest)
        | c :: rest =>
            if escapes && c == '\\' then
              match joinLines? rest with
              | some rest => readLines quote escapes fuel rest
              | none => do
                  let (c, rest) ← escape? rest
                  let (cs, rest) ← readLines quote escapes fuel rest
                  some (c :: cs, rest)
            else if isControl c then none
            else do
              let (cs, rest) ← readLines quote escapes fuel rest
              some (c :: cs, rest)

/-- The text behind a line end right after opening quotes, which does not count. -/
def skipFirstLineEnd : List Char → List Char
  | '\n' :: rest => rest
  | '\r' :: '\n' :: rest => rest
  | text => text

/-- A string of any form. -/
def readString? : List Char → Option (List Char × List Char)
  | '"' :: '"' :: '"' :: rest => readLines '"' true (rest.length + 1) (skipFirstLineEnd rest)
  | '\'' :: '\'' :: '\'' :: rest =>
      readLines '\'' false (rest.length + 1) (skipFirstLineEnd rest)
  | '"' :: rest => readBasic (rest.length + 1) rest
  | '\'' :: rest => readLiteral rest
  | _ => none

/-! ### Keys -/

/-- The characters of a key without quotes. -/
def isBareKeyChar (c : Char) : Bool :=
  c.isAlphanum || c == '_' || c == '-'

/-- A key without dots. -/
def readSimpleKey : List Char → Option (String × List Char)
  | '"' :: rest =>
      (readBasic (rest.length + 1) rest).map fun (cs, rest) => (String.ofList cs, rest)
  | '\'' :: rest => (readLiteral rest).map fun (cs, rest) => (String.ofList cs, rest)
  | text =>
      let key := text.takeWhile isBareKeyChar
      if key.isEmpty then none
      else some (String.ofList key, text.dropWhile isBareKeyChar)

/-- A key with the dotted path in front of it. -/
def readKey : (fuel : Nat) → List Char → Option (List String × String × List Char)
  | 0, _ => none
  | fuel + 1, text => do
      let (key, rest) ← readSimpleKey (skipBlanks text)
      match skipBlanks rest with
      | '.' :: rest => do
          let (path, last, rest) ← readKey fuel rest
          some (key :: path, last, rest)
      | rest => some ([], key, rest)

/-! ### Numbers, words and dates -/

/-- Digits with underscores between them, without the underscores. -/
def withoutUnderscores? (isDigit : Char → Bool) (text : List Char) : Option (List Char) :=
  let separated := text.head? == some '_' || text.getLast? == some '_'
  let doubled := (text.zip (text.drop 1)).any fun (c, d) => c == '_' && d == '_'
  let digits := text.filter (· != '_')
  if separated || doubled || digits.isEmpty || !digits.all isDigit then none
  else some digits

/-- A whole number within 64 bits. -/
def integerOf? (value : Int) : Option Config :=
  if Int64.minValue.toInt ≤ value ∧ value ≤ Int64.maxValue.toInt then some (.integer value)
  else none

/-- The value of a digit in any base to sixteen, and zero for what is no digit. -/
def digitOf (c : Char) : Nat :=
  (Json.hexValue? c).getD 0

/-- A whole number in another base than ten. -/
def basedInteger? (base : Nat) (text : List Char) : Option Config := do
  let isDigit (c : Char) : Bool := (Json.hexValue? c).any (· < base)
  let digits ← withoutUnderscores? isDigit text
  integerOf? (digits.foldl (fun value digit => value * base + digitOf digit) 0 : Nat)

/-- Says whether digits begin with a zero that they could do without. -/
def hasNeedlessZero (digits : List Char) : Bool :=
  digits.head? == some '0' && digits.length != 1

/-- A number in base ten without its sign, split at the point and the exponent. -/
def decimal? (negative : Bool) (text : List Char) : Option Config := do
  let mantissa := text.takeWhile fun c => c != 'e' && c != 'E'
  let exponent := text.dropWhile fun c => c != 'e' && c != 'E'
  let whole ← withoutUnderscores? Char.isDigit (mantissa.takeWhile (· != '.'))
  let point := mantissa.dropWhile (· != '.')
  if hasNeedlessZero whole then none
  else if point.isEmpty && exponent.isEmpty then
    let value : Int := digitsValue whole
    integerOf? (if negative then -value else value)
  else do
    let fraction ←
      if point.isEmpty then some [] else withoutUnderscores? Char.isDigit (point.drop 1)
    let power ←
      if exponent.isEmpty then some (0 : Int)
      else do
        let (negative, digits) := splitSign (exponent.drop 1)
        let digits ← withoutUnderscores? Char.isDigit digits
        let value : Int := digitsValue digits
        some (if negative then -value else value)
    let numeral : Numeral := ⟨negative, digitsValue (whole ++ fraction), power - fraction.length⟩
    match numeral.toDouble with
    | .infinite _ => none
    | value => some (.number value)

/-- A number of any form. -/
def number? (token : List Char) : Option Config :=
  match token with
  | '0' :: 'x' :: digits => basedInteger? 16 digits
  | '0' :: 'o' :: digits => basedInteger? 8 digits
  | '0' :: 'b' :: digits => basedInteger? 2 digits
  | _ =>
      let (negative, unsigned) := splitSign token
      if unsigned = "inf".toList then some (.number (.infinite negative))
      else if unsigned = "nan".toList then some (.number .nan)
      else decimal? negative unsigned

/-- The text behind a mark. -/
def behind? (mark : Char) : List Char → Option (List Char)
  | c :: rest => if c = mark then some rest else none
  | [] => none

/-- A number of exactly so many digits within bounds, and the text behind it. -/
def digitsWithin (count least most : Nat) (text : List Char) : Option (Nat × List Char) :=
  let digits := text.take count
  let value := digitsValue digits
  if digits.length = count ∧ digits.all Char.isDigit ∧ least ≤ value ∧ value ≤ most then
    some (value, text.drop count)
  else
    none

/-- Says whether a year has a leap day. -/
def isLeapYear (year : Nat) : Bool :=
  year % 4 == 0 && (year % 100 != 0 || year % 400 == 0)

/-- The number of days of a month. -/
def daysOf (year month : Nat) : Nat :=
  if month = 2 then (if isLeapYear year then 29 else 28)
  else if month ∈ [4, 6, 9, 11] then 30
  else 31

/-- The text behind a date. -/
def dateEnd? (text : List Char) : Option (List Char) := do
  let (year, rest) ← digitsWithin 4 0 9999 text
  let rest ← behind? '-' rest
  let (month, rest) ← digitsWithin 2 1 12 rest
  let rest ← behind? '-' rest
  let (_, rest) ← digitsWithin 2 1 (daysOf year month) rest
  some rest

/-- Says whether a text is a date. -/
def isDate (text : List Char) : Bool :=
  dateEnd? text == some []

/-- A fraction of a second: at most nine digits count, and zeros at the end do not. -/
def fractionText (digits : List Char) : List Char :=
  let digits := ((digits.take 9).reverse.dropWhile (· == '0')).reverse
  if digits.isEmpty then [] else '.' :: digits

/-- A time of day as it is written out, and the text behind it. -/
def readTime (text : List Char) : Option (List Char × List Char) := do
  let (_, rest) ← digitsWithin 2 0 23 text
  let rest ← behind? ':' rest
  let (_, rest) ← digitsWithin 2 0 59 rest
  let rest ← behind? ':' rest
  let (_, rest) ← digitsWithin 2 0 60 rest
  let time := text.take 8
  match rest with
  | '.' :: rest =>
      let digits := rest.takeWhile Char.isDigit
      if digits.isEmpty then none
      else some (time ++ fractionText digits, rest.dropWhile Char.isDigit)
  | _ => some (time, rest)

/-- The distance from universal time as it is written out, if there is one. -/
def zone? : List Char → Option (List Char)
  | [] => some []
  | ['Z'] => some ['Z']
  | ['z'] => some ['Z']
  | sign :: text => do
      let (hours, rest) ← digitsWithin 2 0 23 text
      let rest ← behind? ':' rest
      let (minutes, rest) ← digitsWithin 2 0 59 rest
      if rest ≠ [] then none
      else if sign = '+' ∨ (sign = '-' ∧ hours = 0 ∧ minutes = 0) then some ('+' :: text)
      else if sign = '-' then some ('-' :: text)
      else none

/-- A date, a time, or both, which is used as a text. -/
def dateTime? (token : List Char) : Option Config :=
  match dateEnd? token with
  | some [] => some (.text (String.ofList token))
  | some (separator :: rest) =>
      if separator = 'T' ∨ separator = 't' ∨ separator = ' ' then do
        let (time, rest) ← readTime rest
        let zone ← zone? rest
        some (.text (String.ofList (token.take 10 ++ 'T' :: time ++ zone)))
      else
        none
  | none =>
      match readTime token with
      | some (time, []) => some (.text (String.ofList time))
      | _ => none

/-- The characters of a number, a word or a date. -/
def isTokenChar (c : Char) : Bool :=
  c.isAlphanum || c == '_' || c == '-' || c == '+' || c == '.' || c == ':'

/-- A number, a word or a date.  A blank may stand between a date and a time. -/
def readToken? (text : List Char) : Option (Config × List Char) :=
  let token := text.takeWhile isTokenChar
  let rest := text.dropWhile isTokenChar
  let continued :=
    isDate token && rest.head? == some ' ' && ((rest.drop 1).head?.any Char.isDigit)
  if continued then
    let time := (rest.drop 1).takeWhile isTokenChar
    (dateTime? (token ++ ' ' :: time)).map fun value =>
      (value, (rest.drop 1).dropWhile isTokenChar)
  else if token = "true".toList then some (.flag true, rest)
  else if token = "false".toList then some (.flag false, rest)
  else
    match number? token with
    | some value => some (value, rest)
    | none => (dateTime? token).map fun value => (value, rest)

/-! ### Values -/

mutual

/-- A value. -/
def readValue : (fuel : Nat) → List Char → Option (Config × List Char)
  | 0, _ => none
  | fuel + 1, text =>
      match text with
      | '"' :: _ => (readString? text).map fun (cs, rest) => (.text (String.ofList cs), rest)
      | '\'' :: _ => (readString? text).map fun (cs, rest) => (.text (String.ofList cs), rest)
      | '[' :: rest => do
          let (items, rest) ← readItems fuel rest
          some (.list items, rest)
      | '\x7b' :: rest =>
          match skipBlanks rest with
          | '\x7d' :: rest => some (.table [], rest)
          | rest => do
              let (entries, rest) ← readInline fuel [] rest
              some (.table (entriesToConfig entries), rest)
      | _ => readToken? text

/-- The items of an array, which may go over several lines. -/
def readItems : (fuel : Nat) → List Char → Option (List Config × List Char)
  | 0, _ => none
  | fuel + 1, text =>
      match skipLines (text.length + 1) text with
      | ']' :: rest => some ([], rest)
      | start => do
          let (item, rest) ← readValue fuel start
          match skipLines (rest.length + 1) rest with
          | ',' :: rest => do
              let (items, rest) ← readItems fuel rest
              some (item :: items, rest)
          | ']' :: rest => some ([item], rest)
          | _ => none

/-- The entries of an inline table. -/
def readInline : (fuel : Nat) → List (String × Toml) → List Char →
    Option (List (String × Toml) × List Char)
  | 0, _, _ => none
  | fuel + 1, entries, text => do
      let (path, key, rest) ← readKey (text.length + 1) text
      let rest ← behind? '=' rest
      let (value, rest) ← readValue fuel (skipBlanks rest)
      let entries ← insertKey? path key value .header entries
      match skipBlanks rest with
      | ',' :: rest => readInline fuel entries rest
      | '\x7d' :: rest => some (entries, rest)
      | _ => none

end

/-! ### Documents -/

/-- The path of a header, up to its closing bracket. -/
def readHeader (text : List Char) : Option (List String × String × List Char) := do
  let (path, key, rest) ← readKey (text.length + 1) text
  let rest ← behind? ']' rest
  some (path, key, rest)

/-- Reads lines into the tables of a document.  `here` is the path of the table that
keys belong to. -/
def readDocument : (fuel : Nat) → (here : List String) → List (String × Toml) → List Char →
    Option (List (String × Toml))
  | 0, _, _, _ => none
  | fuel + 1, here, entries, text =>
      match skipLines (text.length + 1) text with
      | [] => some entries
      | '[' :: '[' :: rest => do
          let (path, key, rest) ← readHeader rest
          let rest ← behind? ']' rest
          let entries ← openItem? path key entries
          let rest ← finishLine? rest
          readDocument fuel (path ++ [key]) entries rest
      | '[' :: rest => do
          let (path, key, rest) ← readHeader rest
          let entries ← openTable? path key entries
          let rest ← finishLine? rest
          readDocument fuel (path ++ [key]) entries rest
      | start => do
          let (path, key, rest) ← readKey (start.length + 1) start
          let rest ← behind? '=' rest
          let start := skipBlanks rest
          let (value, rest) ← readValue (start.length + 1) start
          let entries ← change? false (insertKey? path key value) here .header entries
          let rest ← finishLine? rest
          readDocument fuel here entries rest

/-- The text behind a byte order mark. -/
def skipByteOrderMark : List Char → List Char
  | '\uFEFF' :: rest => rest
  | text => text

/-- Reads a document. -/
def ofText? (text : String) : Option Config :=
  let cs := skipByteOrderMark text.toList
  (readDocument (cs.length + 1) [] [] cs).map fun entries => .table (entriesToConfig entries)

end Letterline.Toml
