/-
Module: Letterline.Proofs.Grammar
Purpose: The grammar of programs, as the trees of its derivations.
Trusted boundary: none
Main exports:
  NamePhrase, LiteralPhrase, ValuePhrase, ConditionPhrase, InstructionPhrase,
  ProgramPhrase, ProgramPhrase.text, ProgramPhrase.program
-/
import Letterline.ParseError
import Letterline.Proofs.Delimiter

namespace Letterline

/-!
    value       := operand (operator operand)*
    operator    := p | m | n | q | y
    operand     := NAME | u | T contents T
    condition   := comparison (connective comparison)*
    comparison  := value comparator value
    comparator  := et | at | gt | get | lt | let
    connective  := a | o | x
    modify      := pp | mm | operator e value | e value
    instruction := x l | h value l | v NAME e value l | NAME modify l
                 | j condition t body [e t body] | r condition t body
                 | f head* k condition k update* t body
    body        := instruction* z

A phrase is a derivation from one of these symbols.  It has the text that it derives
and the tree that it denotes, in which every instruction has the span of its text.
Which contents a literal can have, and what they denote, is part of its phrase.
-/

/-! ### Letters -/

/-- The delimiter of a kind of literal. -/
def LiteralKind.mark : LiteralKind → Char
  | .integer => 'i'
  | .double => 'd'
  | .string => 's'
  | .character => 'c'
  | .boolean => 'b'

theorem LiteralKind.mark_ne_escapeLetter (kind : LiteralKind) :
    kind.mark ≠ Cursor.escapeLetter := by
  cases kind <;> decide

/-- An operator between operands. -/
inductive Arithmetic where
  | plus
  | minus
  | times
  | divide
  | modulo
deriving Repr, DecidableEq

namespace Arithmetic

def letter : Arithmetic → Char
  | plus => 'p'
  | minus => 'm'
  | times => 'n'
  | divide => 'q'
  | modulo => 'y'

def operator : Arithmetic → Operator
  | plus => .plus
  | minus => .minus
  | times => .times
  | divide => .divide
  | modulo => .modulo

end Arithmetic

def Comparator.spelling : Comparator → List Char
  | .equal => ['e', 't']
  | .notEqual => ['a', 't']
  | .greater => ['g', 't']
  | .greaterOrEqual => ['g', 'e', 't']
  | .less => ['l', 't']
  | .lessOrEqual => ['l', 'e', 't']

def Connective.letter : Connective → Char
  | .and => 'a'
  | .or => 'o'
  | .xor => 'x'

/-! ### Operands -/

/-- A capital letter and more capital letters and digits. -/
structure NamePhrase where
  first : Char
  rest : List Char
  first_isUpper : first.isUpper
  rest_isNameChar : ∀ c ∈ rest, Cursor.isNameChar c

namespace NamePhrase

def text (phrase : NamePhrase) : List Char :=
  phrase.first :: phrase.rest

/-- The name in lower case. -/
def name (phrase : NamePhrase) : String :=
  String.ofList (phrase.text.map Char.toLower)

end NamePhrase

/-- Contents between two delimiters, and the scalar that they denote. -/
structure LiteralPhrase where
  kind : LiteralKind
  contents : List Char
  scalar : Scalar
  delimited : Delimited kind.mark contents
  denotes : kind.read? (String.ofList contents) = some scalar

def LiteralPhrase.text (phrase : LiteralPhrase) : List Char :=
  phrase.kind.mark :: (phrase.contents ++ [phrase.kind.mark])

inductive OperandPhrase where
  | variable (name : NamePhrase)
  | input
  | literal (phrase : LiteralPhrase)

namespace OperandPhrase

def text : OperandPhrase → List Char
  | .variable name => name.text
  | .input => ['u']
  | .literal phrase => phrase.text

def operand : OperandPhrase → Operand
  | .variable name => .variable name.name
  | .input => .input
  | .literal phrase => .literal phrase.scalar

theorem text_ne_nil (phrase : OperandPhrase) : phrase.text ≠ [] := by
  cases phrase <;> simp [text, NamePhrase.text, LiteralPhrase.text]

end OperandPhrase

/-! ### Values and conditions -/

structure ValuePhrase where
  first : OperandPhrase
  rest : List (Arithmetic × OperandPhrase)

namespace ValuePhrase

/-- The text of operators with their operands. -/
def linksText (links : List (Arithmetic × OperandPhrase)) : List Char :=
  links.flatMap fun (operator, operand) => operator.letter :: operand.text

def text (phrase : ValuePhrase) : List Char :=
  phrase.first.text ++ linksText phrase.rest

/-- The parts that operators with their operands denote. -/
def linkParts (links : List (Arithmetic × OperandPhrase)) : List Part :=
  links.map fun (operator, operand) => ⟨operator.operator, operand.operand⟩

def value (phrase : ValuePhrase) : Value :=
  .ofParts (⟨.none, phrase.first.operand⟩ :: linkParts phrase.rest)

theorem text_ne_nil (phrase : ValuePhrase) : phrase.text ≠ [] :=
  List.append_ne_nil_of_left_ne_nil phrase.first.text_ne_nil _

end ValuePhrase

structure ComparisonPhrase where
  left : ValuePhrase
  comparator : Comparator
  right : ValuePhrase

namespace ComparisonPhrase

def text (phrase : ComparisonPhrase) : List Char :=
  phrase.left.text ++ (phrase.comparator.spelling ++ phrase.right.text)

def condition (phrase : ComparisonPhrase) : Condition :=
  .compare phrase.left.value phrase.comparator phrase.right.value

end ComparisonPhrase

structure ConditionPhrase where
  first : ComparisonPhrase
  rest : List (Connective × ComparisonPhrase)

namespace ConditionPhrase

/-- The text of connectives with their comparisons. -/
def linksText (links : List (Connective × ComparisonPhrase)) : List Char :=
  links.flatMap fun (connective, comparison) => connective.letter :: comparison.text

def text (phrase : ConditionPhrase) : List Char :=
  phrase.first.text ++ linksText phrase.rest

/-- The members that connectives with their comparisons denote. -/
def linkMembers (links : List (Connective × ComparisonPhrase)) :
    List (Connective × Condition) :=
  links.map fun (connective, comparison) => (connective, comparison.condition)

/-- A comparison alone, or a chain. -/
def condition (phrase : ConditionPhrase) : Condition :=
  match phrase.rest with
  | [] => phrase.first.condition
  | links => .chain phrase.first.condition (linkMembers links)

theorem text_ne_nil (phrase : ConditionPhrase) : phrase.text ≠ [] :=
  List.append_ne_nil_of_left_ne_nil
    (List.append_ne_nil_of_left_ne_nil phrase.first.left.text_ne_nil _) _

end ConditionPhrase

/-! ### Instructions -/

inductive ModificationPhrase where
  | increment
  | decrement
  | compound (operator : Arithmetic) (value : ValuePhrase)
  | assign (value : ValuePhrase)

namespace ModificationPhrase

def text : ModificationPhrase → List Char
  | .increment => ['p', 'p']
  | .decrement => ['m', 'm']
  | .compound operator value => operator.letter :: 'e' :: value.text
  | .assign value => 'e' :: value.text

def modification : ModificationPhrase → Modification
  | .increment => .increment
  | .decrement => .decrement
  | .compound operator value => .compound operator.operator value.value
  | .assign value => .assign value.value

end ModificationPhrase

/-- The span of a text that starts at an index. -/
def Span.over (start : Nat) (text : List Char) : Span :=
  ⟨start, start + text.length⟩

structure DeclarationPhrase where
  name : NamePhrase
  value : ValuePhrase

namespace DeclarationPhrase

def text (phrase : DeclarationPhrase) : List Char :=
  'v' :: (phrase.name.text ++ 'e' :: (phrase.value.text ++ ['l']))

def instruction (start : Nat) (phrase : DeclarationPhrase) : Instruction :=
  .declare phrase.name.name phrase.value.value (.over start phrase.text)

end DeclarationPhrase

structure ChangePhrase where
  name : NamePhrase
  modification : ModificationPhrase

namespace ChangePhrase

def text (phrase : ChangePhrase) : List Char :=
  phrase.name.text ++ (phrase.modification.text ++ ['l'])

def instruction (start : Nat) (phrase : ChangePhrase) : Instruction :=
  .modify phrase.name.name phrase.modification.modification (.over start phrase.text)

end ChangePhrase

/-- What the head of a `for` can hold in front of its condition. -/
inductive HeadPhrase where
  | declare (declaration : DeclarationPhrase)
  | modify (change : ChangePhrase)

namespace HeadPhrase

def text : HeadPhrase → List Char
  | .declare declaration => declaration.text
  | .modify change => change.text

def instruction (start : Nat) : HeadPhrase → Instruction
  | .declare declaration => declaration.instruction start
  | .modify change => change.instruction start

end HeadPhrase

/-- The trees of phrases in a row. -/
def treesFrom {α : Type} (text : α → List Char) (tree : Nat → α → Instruction) :
    Nat → List α → List Instruction
  | _, [] => []
  | start, phrase :: rest =>
      tree start phrase :: treesFrom text tree (start + (text phrase).length) rest

inductive InstructionPhrase where
  | exit
  | print (value : ValuePhrase)
  | declare (declaration : DeclarationPhrase)
  | modify (change : ChangePhrase)
  | branch (condition : ConditionPhrase) (thenBody : List InstructionPhrase)
      (elseBody : Option (List InstructionPhrase))
  | whileLoop (condition : ConditionPhrase) (body : List InstructionPhrase)
  | forLoop (init : List HeadPhrase) (condition : ConditionPhrase)
      (update : List ChangePhrase) (body : List InstructionPhrase)

namespace InstructionPhrase

mutual

def text : InstructionPhrase → List Char
  | .exit => ['x', 'l']
  | .print value => 'h' :: (value.text ++ ['l'])
  | .declare declaration => declaration.text
  | .modify change => change.text
  | .branch condition thenBody none =>
      'j' :: (condition.text ++ 't' :: (textAll thenBody ++ ['z']))
  | .branch condition thenBody (some elseBody) =>
      'j' :: (condition.text ++ 't' :: (textAll thenBody ++ 'z' :: 'e' :: 't' ::
        (textAll elseBody ++ ['z'])))
  | .whileLoop condition body => 'r' :: (condition.text ++ 't' :: (textAll body ++ ['z']))
  | .forLoop init condition update body =>
      'f' :: (init.flatMap HeadPhrase.text ++ 'k' :: (condition.text ++ 'k' ::
        (update.flatMap ChangePhrase.text ++ 't' :: (textAll body ++ ['z']))))

def textAll : List InstructionPhrase → List Char
  | [] => []
  | phrase :: rest => text phrase ++ textAll rest

end

mutual

/-- The instruction that a phrase denotes if its text starts at an index. -/
def instruction : Nat → InstructionPhrase → Instruction
  | start, .exit => .exit (.over start (text .exit))
  | start, .print value => .print value.value (.over start (text (.print value)))
  | start, .declare declaration => declaration.instruction start
  | start, .modify change => change.instruction start
  | start, .branch condition thenBody none =>
      let inThen := start + 1 + condition.text.length + 1
      .branch condition.condition (instructions inThen thenBody) none
        (.over start (text (.branch condition thenBody none)))
  | start, .branch condition thenBody (some elseBody) =>
      let inThen := start + 1 + condition.text.length + 1
      let inElse := inThen + (textAll thenBody).length + 3
      .branch condition.condition (instructions inThen thenBody)
        (some (instructions inElse elseBody))
        (.over start (text (.branch condition thenBody (some elseBody))))
  | start, .whileLoop condition body =>
      let inBody := start + 1 + condition.text.length + 1
      .whileLoop condition.condition (instructions inBody body)
        (.over start (text (.whileLoop condition body)))
  | start, .forLoop init condition update body =>
      let inUpdate := start + 1 + (init.flatMap HeadPhrase.text).length + 1
        + condition.text.length + 1
      let inBody := inUpdate + (update.flatMap ChangePhrase.text).length + 1
      .forLoop (treesFrom HeadPhrase.text HeadPhrase.instruction (start + 1) init)
        condition.condition
        (treesFrom ChangePhrase.text ChangePhrase.instruction inUpdate update)
        (instructions inBody body)
        (.over start (text (.forLoop init condition update body)))

/-- The instructions that phrases in a row denote. -/
def instructions : Nat → List InstructionPhrase → List Instruction
  | _, [] => []
  | start, phrase :: rest =>
      instruction start phrase :: instructions (start + (text phrase).length) rest

end

/-- What a phrase denotes an instruction of. -/
def kind : InstructionPhrase → InstructionKind
  | .exit => .exit
  | .print _ => .print
  | .declare _ => .declare
  | .modify _ => .modify
  | .branch .. => .branch
  | .whileLoop .. => .whileLoop
  | .forLoop .. => .forLoop

/-- What the head of a `for` holds, as an instruction of its own. -/
def ofHead : HeadPhrase → InstructionPhrase
  | .declare declaration => .declare declaration
  | .modify change => .modify change

section

variable {α : Type} {text : α → List Char} {tree : Nat → α → Instruction}
  {phraseOf : α → InstructionPhrase}

/-- Phrases in a row have the text that they have as instructions. -/
theorem textAll_map (texts : ∀ phrase, (phraseOf phrase).text = text phrase)
    (phrases : List α) : textAll (phrases.map phraseOf) = phrases.flatMap text := by
  induction phrases with
  | nil => rfl
  | cons phrase rest inductionHypothesis =>
      rw [List.map_cons, textAll, texts, inductionHypothesis, List.flatMap_cons]

/-- Phrases in a row denote what they denote as instructions. -/
theorem instructions_map (texts : ∀ phrase, (phraseOf phrase).text = text phrase)
    (trees : ∀ start phrase, (phraseOf phrase).instruction start = tree start phrase)
    (start : Nat) (phrases : List α) :
    instructions start (phrases.map phraseOf) = treesFrom text tree start phrases := by
  induction phrases generalizing start with
  | nil => rfl
  | cons phrase rest inductionHypothesis =>
      rw [List.map_cons, instructions, trees, texts, inductionHypothesis, treesFrom]

end

theorem text_ofHead (head : HeadPhrase) : (ofHead head).text = head.text := by
  cases head <;> rw [ofHead, text, HeadPhrase.text]

theorem instruction_ofHead (start : Nat) (head : HeadPhrase) :
    (ofHead head).instruction start = head.instruction start := by
  cases head <;> rw [ofHead, instruction, HeadPhrase.instruction]

theorem textAll_heads (heads : List HeadPhrase) :
    textAll (heads.map ofHead) = heads.flatMap HeadPhrase.text :=
  textAll_map text_ofHead heads

theorem instructions_heads (start : Nat) (heads : List HeadPhrase) :
    instructions start (heads.map ofHead) =
      treesFrom HeadPhrase.text HeadPhrase.instruction start heads :=
  instructions_map text_ofHead instruction_ofHead start heads

theorem textAll_changes (changes : List ChangePhrase) :
    textAll (changes.map modify) = changes.flatMap ChangePhrase.text :=
  textAll_map (fun _ => by rw [text]) changes

theorem instructions_changes (start : Nat) (changes : List ChangePhrase) :
    instructions start (changes.map modify) =
      treesFrom ChangePhrase.text ChangePhrase.instruction start changes :=
  instructions_map (fun _ => by rw [text]) (fun _ _ => by rw [instruction]) start changes

theorem text_ne_nil (phrase : InstructionPhrase) : phrase.text ≠ [] := by
  cases phrase with
  | branch condition thenBody elseBody => cases elseBody <;> simp [text]
  | _ => simp [text, DeclarationPhrase.text, ChangePhrase.text, NamePhrase.text]

end InstructionPhrase

/-- A derivation of a whole program. -/
structure ProgramPhrase where
  instructions : List InstructionPhrase

namespace ProgramPhrase

def text (phrase : ProgramPhrase) : List Char :=
  InstructionPhrase.textAll phrase.instructions

/-- The program that a derivation denotes. -/
def program (phrase : ProgramPhrase) : Program :=
  ⟨InstructionPhrase.instructions 0 phrase.instructions, .over 0 phrase.text⟩

end ProgramPhrase

end Letterline
