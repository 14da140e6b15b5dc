/-
Module: Letterline.Settings.Environment
Purpose: Environment variables, and files that add to them.
Trusted boundary: none
Main exports:
  Environment, Environment.lookup?, Environment.extend
-/

namespace Letterline

/-!
A file of variables has a line `NAME=value` for each, with comments, quotes and
escapes, and with `$NAME` for the value of another variable.  A quoted value may go
over several lines.  What the environment already holds is kept, and reading stops at
the first line that is none of this.
-/

/-- Variables and their values. -/
abbrev Environment : Type :=
  List (String × String)

namespace Environment

/-- The value of a variable. -/
def lookup? (name : String) : Environment → Option String
  | [] => none
  | (key, value) :: rest => if key = name then some value else lookup? name rest

/-- White space, in lines of variables. -/
def isSpace (c : Char) : Bool :=
  (9 ≤ c.toNat && c.toNat ≤ 13) || c == ' ' || c.toNat == 0x85 || c.toNat == 0xA0
    || c.toNat == 0x1680 || (0x2000 ≤ c.toNat && c.toNat ≤ 0x200A) || c.toNat == 0x2028
    || c.toNat == 0x2029 || c.toNat == 0x202F || c.toNat == 0x205F || c.toNat == 0x3000

/-! ### Lines -/

/-- Where a line stands with quotes and escapes. -/
inductive LineState where
  | plain
  | blank
  | escape
  | single
  | singleEscape
  | double
  | doubleEscape
deriving Repr, DecidableEq

/-- What a character starts outside of quotes. -/
def LineState.opened (c : Char) (other : LineState) : LineState :=
  if c = '\\' then .escape
  else if c = '"' then .double
  else if c = '\'' then .single
  else other

/-- The state behind a character, or none where a comment starts. -/
def LineState.next? (c : Char) : LineState → Option LineState
  | .plain =>
      if isSpace c && c != '\n' && c != '\r' then some .blank else some (opened c .plain)
  | .blank => if c = '#' then none else some (opened c .plain)
  | .escape => some .plain
  | .single =>
      some (if c = '\\' then .singleEscape else if c = '\'' then .plain else .single)
  | .singleEscape => some .single
  | .double =>
      some (if c = '\\' then .doubleEscape else if c = '"' then .plain else .double)
  | .doubleEscape => some .double

/-- Goes through a line up to a comment.  The result is what stands before the
comment and no state, or the whole line and the state behind it. -/
def scanLine : LineState → List Char → List Char × Option LineState
  | state, [] => ([], some state)
  | state, c :: rest =>
      match state.next? c with
      | none => ([], none)
      | some state =>
          let (kept, final) := scanLine state rest
          (c :: kept, final)

/-- The first line of a text with its line feed, and the text behind it. -/
def cutLine (text : List Char) : List Char × List Char :=
  let line := text.takeWhile (· != '\n')
  match text.dropWhile (· != '\n') with
  | [] => (line, [])
  | feed :: rest => (line ++ [feed], rest)

/-- A line without its line feed and a carriage return before that. -/
def withoutFeed (line : List Char) : List Char :=
  match line.reverse with
  | '\n' :: '\r' :: rest => rest.reverse
  | '\n' :: rest => rest.reverse
  | _ => line

/-- The next entry of a text, which goes on to the line on which all quotes are
closed.  A comment is an empty entry.  There is none if quotes stay open. -/
def readEntry : (fuel : Nat) → LineState → (sofar : List Char) → List Char →
    Option (List Char × List Char)
  | 0, _, _, _ => none
  | _ + 1, _, _, [] => none
  | fuel + 1, state, sofar, text =>
      let (line, rest) := cutLine text
      if ((sofar ++ line).dropWhile isSpace).head? == some '#' then
        some ([], rest)
      else
        match scanLine state line with
        | (kept, none) => some (sofar ++ kept, rest)
        | (_, some .plain) => some (withoutFeed (sofar ++ line), rest)
        | (_, some state) => readEntry fuel state (sofar ++ line) rest

/-! ### Values -/

/-- Where a value stands. -/
inductive ValueState where
  | plain
  | single
  | double
  | escape (quoted : Bool)
  /-- In a name behind a dollar sign, in braces or not. -/
  | name (quoted braced : Bool) (sofar : List Char)
  /-- Behind a blank, where only blanks and a comment may follow. -/
  | ending
deriving Repr, DecidableEq

/-- The state inside double quotes, or outside. -/
def ValueState.back (quoted : Bool) : ValueState :=
  if quoted then .double else .plain

/-- The character that an escaped one stands for. -/
def unescape? (c : Char) : Option Char :=
  if c = 'n' then some '\n'
  else if c = '\\' ∨ c = '\'' ∨ c = '"' ∨ c = '$' ∨ c = ' ' then some c
  else none

/-- Reads a value, given what a name stands for. -/
def readValue (valueOf : List Char → List Char) :
    ValueState → List Char → Option (List Char)
  | .plain, [] => some []
  | .ending, [] => some []
  | .escape false, [] => some []
  | .name false false sofar, [] => some (valueOf sofar.reverse)
  | _, [] => none
  | .ending, c :: rest =>
      if c = ' ' ∨ c = '\t' then readValue valueOf .ending rest
      else if c = '#' then some []
      else none
  | .escape quoted, c :: rest => do
      let c ← unescape? c
      let value ← readValue valueOf (.back quoted) rest
      some (c :: value)
  | .single, c :: rest =>
      if c = '\'' then readValue valueOf .plain rest
      else (readValue valueOf .single rest).map (c :: ·)
  | .name quoted braced sofar, c :: rest =>
      if c.isAlphanum then readValue valueOf (.name quoted braced (c :: sofar)) rest
      else if braced then
        if c = '\x7d' then
          (readValue valueOf (.back quoted) rest).map (valueOf sofar.reverse ++ ·)
        else readValue valueOf (.name quoted true (c :: sofar)) rest
      else if c = '\x7b' ∧ sofar = [] then readValue valueOf (.name quoted true []) rest
      else if c = '$' then
        (readValue valueOf (.name quoted false []) rest).map (valueOf sofar.reverse ++ ·)
      else
        (readValue valueOf (.back quoted) rest).map fun value =>
          valueOf sofar.reverse ++ c :: value
  | .double, c :: rest =>
      if c = '$' then readValue valueOf (.name true false []) rest
      else if c = '"' then readValue valueOf .plain rest
      else if c = '\\' then readValue valueOf (.escape true) rest
      else (readValue valueOf .double rest).map (c :: ·)
  | .plain, c :: rest =>
      if c = '$' then readValue valueOf (.name false false []) rest
      else if c = '\'' then readValue valueOf .single rest
      else if c = '"' then readValue valueOf .double rest
      else if c = '\\' then readValue valueOf (.escape false) rest
      else if c = ' ' ∨ c = '\t' then readValue valueOf .ending rest
      else (readValue valueOf .plain rest).map (c :: ·)

/-! ### Entries -/

/-- Reads the name of a variable. -/
def readName? (text : List Char) : Option (List Char × List Char) :=
  match text with
  | [] => none
  | c :: _ =>
      if c.isAlpha || c == '_' then
        let isNameChar (c : Char) : Bool := c.isAlphanum || c == '_' || c == '.'
        some (text.takeWhile isNameChar, (text.dropWhile isNameChar).dropWhile isSpace)
      else
        none

/-- The text behind an equals sign. -/
def behindEquals? : List Char → Option (List Char)
  | '=' :: rest => some rest
  | _ => none

/-- Separates the name of an entry, which `export` may precede, from its value. -/
def splitEntry? (text : List Char) : Option (List Char × List Char) := do
  let (name, rest) ← readName? text
  match behindEquals? rest with
  | some rest => some (name, rest)
  | none =>
      if name = "export".toList then do
        let (name, rest) ← readName? rest
        let rest ← behindEquals? rest
        some (name, rest)
      else
        none

/-- Adds the entries of a text.  `earlier` holds the values of the entries before,
which count for names that the environment does not have. -/
def extendBy : (fuel : Nat) → (earlier : Environment) → List Char → Environment → Environment
  | 0, _, _, environment => environment
  | fuel + 1, earlier, text, environment =>
      match readEntry (text.length + 1) .plain [] text with
      | none => environment
      | some (entry, rest) =>
          let start := entry.dropWhile isSpace
          if start.isEmpty || start.head? == some '#' then
            extendBy fuel earlier rest environment
          else
            let valueOf (name : List Char) : List Char :=
              let name := String.ofList name
              (((lookup? name environment).or (lookup? name earlier)).getD "").toList
            let parsed := do
              let (name, text) ← splitEntry? start
              let text := text.dropWhile isSpace
              let value ←
                if text.isEmpty || text.head? == some '#' then some []
                else readValue valueOf .plain text
              some (String.ofList name, String.ofList value)
            match parsed with
            | none => environment
            | some (name, value) =>
                let environment :=
                  if (lookup? name environment).isSome then environment
                  else environment ++ [(name, value)]
                extendBy fuel ((name, value) :: earlier) rest environment

/-- The environment with the variables of a text that it does not have itself. -/
def extend (text : String) (environment : Environment) : Environment :=
  let cs := text.toList
  let cs := if cs.head? == some '\uFEFF' then cs.drop 1 else cs
  extendBy (cs.length + 1) [] cs environment

end Environment

end Letterline
