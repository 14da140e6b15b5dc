/-
Module: Letterline.Proofs.Recursion
Purpose: Parsers call themselves only where less of the source is left, and so come to an end.
Trusted boundary: none
Main exports:
  Parser.CallsOnLess, Parser.ComesToEnd, Parser.SpendsFuel.comesToEnd, Value.partsTurn,
  Condition.linksTurn, Instruction.runTurn, Program.parsing_comes_to_end
-/
import Letterline.Proofs.ParserSound
import Letterline.Proofs.Progress
import Mathlib.Logic.Function.Iterate

namespace Letterline

/-!
Three parsers call themselves: the one for the further parts of a value, the one for the further
members of a condition, and the one for runs of instructions, which is also called for the runs
inside of an instruction.  Each is one turn that is given what to call.  All that a turn calls, it
calls on cursors that have less left to read.  So two families of parsers that agree there make
turns that agree here, and after as many turns as there are characters left it does not matter any
more what would be called.  That is what the fuel of these parsers comes to: it is never short.
-/

/-! ### Turns -/

namespace Parser

variable {ι α β : Type}

/-- Two parsers do the same on every cursor with at most so many characters left. -/
def AgreeWithin (bound : Nat) (parser twin : Parser α) : Prop :=
  ∀ here : Cursor, here.remaining ≤ bound → parser here = twin here

/-- A turn only calls on cursors that have less left: turns agree that are given families which
agree there, if the first of them goes forward only. -/
def CallsOnLess (turn : (ι → Parser α) → ι → Parser α) : Prop :=
  ∀ (calls others : ι → Parser α) (bound : Nat), (∀ index, OnlyAdvances (calls index)) →
    (∀ index, AgreeWithin bound (calls index) (others index)) →
      ∀ index, AgreeWithin (bound + 1) (turn calls index) (turn others index)

/-- A family of parsers that call each other is what one turn makes of itself, the turn only calls
where less is left, and as many turns as there are characters left, and one more, come to the end,
whatever would be called beyond them. -/
structure ComesToEnd (turn : (ι → Parser α) → ι → Parser α) (loop : ι → Parser α) : Prop where
  again : turn loop = loop
  callsOnLess : CallsOnLess turn
  ends (beyond : ι → Parser α) (depth : Nat) (index : ι) :
    AgreeWithin depth (loop index) (turn^[depth + 1] beyond index)

/-- A family of parsers spends its fuel on turns, and is out of it at the end of the source. -/
structure SpendsFuel (turn : (ι → Parser α) → ι → Parser α) (family : Nat → ι → Parser α) :
    Prop where
  unfolds (fuel : Nat) : family (fuel + 1) = turn (family fuel)
  atEnd (calls : ι → Parser α) (index : ι) : AgreeWithin 0 (family 0 index) (turn calls index)
  advances (fuel : Nat) (index : ι) : OnlyAdvances (family fuel index)
  callsOnLess : CallsOnLess turn

/-- A parser that is given fuel for every character that is left. -/
def fuelled (family : Nat → ι → Parser α) (index : ι) : Parser α := do
  family (← Parser.cursor).remaining index

namespace SpendsFuel

variable {turn : (ι → Parser α) → ι → Parser α} {family : Nat → ι → Parser α}

theorem oneMore (spends : SpendsFuel turn family) (fuel : Nat) (index : ι) :
    AgreeWithin fuel (family (fuel + 1) index) (family fuel index) := by
  induction fuel generalizing index with
  | zero =>
      intro here finished
      rw [spends.unfolds, spends.atEnd _ index here finished]
  | succ fuel inductionHypothesis =>
      have agree := spends.callsOnLess _ _ _ (spends.advances _) inductionHypothesis index
      rwa [← spends.unfolds, ← spends.unfolds] at agree

/-- More fuel than there are characters left makes no difference. -/
theorem enough (spends : SpendsFuel turn family) (fuel : Nat) (index : ι) :
    AgreeWithin fuel (family fuel index) (fuelled family index) := by
  intro here left
  obtain ⟨extra, rfl⟩ := Nat.exists_eq_add_of_le left
  -- on the fuel that will be left over
  induction extra with
  | zero => rfl
  | succ extra inductionHypothesis =>
      have left := Nat.le_add_right here.remaining extra
      exact (spends.oneMore _ index here left).trans (inductionHypothesis left)

theorem onlyAdvances_fuelled (spends : SpendsFuel turn family) (index : ι) :
    OnlyAdvances (fuelled family index) :=
  .look fun here => spends.advances here.remaining index

/-- With fuel for every character that is left, a family comes to its end. -/
theorem comesToEnd (spends : SpendsFuel turn family) : ComesToEnd turn (fuelled family) := by
  have last (calls : ι → Parser α) (index : ι) :
      AgreeWithin 0 (fuelled family index) (turn calls index) := by
    intro here finished
    exact (spends.enough 0 index here finished).symm.trans (spends.atEnd calls index here finished)
  have again : turn (fuelled family) = fuelled family := by
    funext index here
    cases left : here.remaining with
    | zero => exact (last _ index here (Nat.le_of_eq left)).symm
    | succ bound =>
        have unfolded := spends.callsOnLess _ _ bound (spends.advances bound) (spends.enough bound)
          index here (Nat.le_of_eq left)
        rw [← spends.unfolds] at unfolded
        exact unfolded.symm.trans (spends.enough _ index here (Nat.le_of_eq left))
  -- one turn more reaches where one character more is left
  refine ⟨again, spends.callsOnLess, fun beyond depth index => ?_⟩
  induction depth generalizing index with
  | zero => exact last beyond index
  | succ depth inductionHypothesis =>
      have agree := spends.callsOnLess _ _ _ spends.onlyAdvances_fuelled inductionHypothesis index
      rwa [again, ← Function.iterate_succ_apply' turn] at agree

end SpendsFuel

/-! ### Agreement -/

/-- Sequences do the same from here if the second parsers do from where the first one stops. -/
theorem bind_eq_bind {first firstTwin : Parser α} {second secondTwin : α → Parser β}
    {here : Cursor} (same : first here = firstTwin here)
    (onward : ∀ result middle, first.Yields here result middle →
      second result middle = secondTwin result middle) :
    (first >>= second) here = (firstTwin >>= secondTwin) here := by
  simp only [Bind.bind, EStateM.bind, ← same]
  split
  · next result middle ran => exact onward result middle ran
  · rfl

namespace AgreeWithin

variable {bound : Nat}

theorem refl (parser : Parser α) : AgreeWithin bound parser parser :=
  fun _ _ => rfl

theorem of_end {parser twin : Parser α}
    (same : ∀ here : Cursor, here.exhausted = true → parser here = twin here) :
    AgreeWithin 0 parser twin := by
  intro here finished
  rw [Nat.le_zero, Cursor.remaining_eq, List.length_eq_zero_iff] at finished
  exact same here (Cursor.exhausted_iff.mpr finished)

theorem bind {first firstTwin : Parser α} {second secondTwin : α → Parser β}
    (advances : OnlyAdvances first) (agreeFirst : AgreeWithin bound first firstTwin)
    (agreeSecond : ∀ result, AgreeWithin bound (second result) (secondTwin result)) :
    AgreeWithin bound (first >>= second) (firstTwin >>= secondTwin) := by
  intro here left
  refine bind_eq_bind (agreeFirst here left) fun result middle ran => ?_
  exact agreeSecond result middle (Nat.le_trans (advances.remaining_le ran) left)

/-- What two parsers have in common in front does not matter. -/
theorem behind {first : Parser α} {second twin : α → Parser β} (advances : OnlyAdvances first)
    (agree : ∀ result, AgreeWithin bound (second result) (twin result)) :
    AgreeWithin bound (first >>= second) (first >>= twin) :=
  bind advances (.refl first) agree

/-- Behind a step one character less is left. -/
theorem behind_step {second twin : Unit → Parser β}
    (agree : AgreeWithin bound (second ()) (twin ())) :
    AgreeWithin (bound + 1) (step >>= second) (step >>= twin) := by
  intro here left
  refine agree here.next ?_
  rw [Cursor.remaining_eq] at left ⊢
  rw [Cursor.rest_next, List.length_tail]
  omega

theorem look {next twin : Cursor → Parser α}
    (agree : ∀ here, AgreeWithin bound (next here) (twin here)) :
    AgreeWithin bound (Parser.cursor >>= next) (Parser.cursor >>= twin) :=
  behind .cursor agree

theorem ite {condition : Prop} [Decidable condition] {first firstTwin second secondTwin : Parser α}
    (agreeFirst : AgreeWithin bound first firstTwin)
    (agreeSecond : AgreeWithin bound second secondTwin) :
    AgreeWithin bound (if condition then first else second)
      (if condition then firstTwin else secondTwin) := by
  split
  · exact agreeFirst
  · exact agreeSecond

end AgreeWithin

end Parser

open Letterline.Parser

/-! ### Values -/

namespace Value

/-- Reads an operator and an operand and calls for the further ones. -/
def partsTurn (further : Unit → Parser (List Part)) : Unit → Parser (List Part)
  | () => do
      Parser.step
      let here ← Parser.cursor
      if here.exhausted then
        return []
      else
        match Operator.ofMark? here.current with
        | none => return []
        | some operator =>
            Parser.step
            if (← Parser.cursor).exhausted then
              Parser.unexpected .valueAfterOperator
            else
              let operand ← Operand.parse
              let rest ← further ()
              return ⟨operator, operand⟩ :: rest

/-- Reads all operators and operands that follow an operand. -/
def partsLoop : Unit → Parser (List Part) :=
  fuelled fun fuel _ => parseRest fuel

theorem callsOnLess_partsTurn : CallsOnLess partsTurn := by
  intro calls others bound advances agree index
  refine .behind_step (.look fun here => .ite (.refl _) ?_)
  cases Operator.ofMark? here.current with
  | none => exact .refl _
  | some operator =>
      refine .behind .step fun _ => .look fun there => .ite (.refl _) ?_
      refine .behind Operand.onlyAdvances_parse fun operand => ?_
      exact .bind (advances ()) (agree ()) fun rest => .refl _

theorem partsTurn_of_end (calls : Unit → Parser (List Part)) (index : Unit) :
    AgreeWithin 0 (parseRest 0) (partsTurn calls index) := by
  refine .of_end fun here exhausted => ?_
  have stays : Parser.step here = .ok () here :=
    congrArg (EStateM.Result.ok ()) (Cursor.next_of_exhausted exhausted)
  simp only [partsTurn, Bind.bind, EStateM.bind, stays]
  exact (congrFun (if_pos exhausted) here).symm

theorem spendsFuel_parseRest : SpendsFuel partsTurn fun fuel _ => parseRest fuel where
  unfolds _ := rfl
  atEnd := partsTurn_of_end
  advances fuel _ := onlyAdvances_parseRest fuel
  callsOnLess := callsOnLess_partsTurn

/-- A value is an operand and the parts that follow it. -/
theorem parse_eq_partsLoop : Value.parse = do
    let first ← Operand.parse
    let rest ← partsLoop ()
    return ofParts (⟨.none, first⟩ :: rest) := by
  funext here
  refine bind_eq_bind rfl fun first middle _ => ?_
  have enough : middle.remaining ≤ middle.after.length + 1 := by
    rw [Cursor.remaining]
    split
    · exact Nat.zero_le _
    · exact Nat.le_refl _
  exact bind_eq_bind (spendsFuel_parseRest.enough _ () middle enough) fun _ _ _ => rfl

end Value

/-! ### Conditions -/

namespace Condition

/-- Reads a connective and a comparison and calls for the further ones. -/
def linksTurn (further : Unit → Parser (List (Connective × Condition))) :
    Unit → Parser (List (Connective × Condition))
  | () => do
      let here ← Parser.cursor
      if here.exhausted then
        return []
      else
        match Connective.ofMark? here.current with
        | none => return []
        | some connective =>
            Parser.step
            let condition ← parseComparison
            let rest ← further ()
            return (connective, condition) :: rest

/-- Reads all connectives and comparisons that follow a comparison. -/
def linksLoop : Unit → Parser (List (Connective × Condition)) :=
  fuelled fun fuel _ => parseLinks fuel

theorem callsOnLess_linksTurn : CallsOnLess linksTurn := by
  intro calls others bound advances agree index
  refine .look fun here => .ite (.refl _) ?_
  cases Connective.ofMark? here.current with
  | none => exact .refl _
  | some connective =>
      refine .behind_step (.behind onlyAdvances_parseComparison fun condition => ?_)
      exact .bind (advances ()) (agree ()) fun rest => .refl _

theorem spendsFuel_parseLinks : SpendsFuel linksTurn fun fuel _ => parseLinks fuel where
  unfolds _ := rfl
  atEnd _ _ := .of_end fun here exhausted => (congrFun (if_pos exhausted) here).symm
  advances fuel _ := onlyAdvances_parseLinks fuel
  callsOnLess := callsOnLess_linksTurn

/-- A condition is a comparison and the members that follow it. -/
theorem parse_eq_linksLoop : Condition.parse = do
    let head ← parseComparison
    let rest ← linksLoop ()
    return ofMembers head rest :=
  rfl

end Condition

/-! ### Instructions -/

namespace Instruction

variable {calls others : Stop → Parser (List Instruction)} {bound : Nat}

theorem agreeWithin_parseBody (agree : ∀ stop, AgreeWithin bound (calls stop) (others stop)) :
    AgreeWithin bound (parseBody calls) (parseBody others) :=
  .behind (.expect _ _) fun _ => .look fun _ => agree _

theorem agreeWithin_parseElse (advances : ∀ stop, OnlyAdvances (calls stop))
    (agree : ∀ stop, AgreeWithin bound (calls stop) (others stop)) :
    AgreeWithin bound (parseElse calls) (parseElse others) := by
  refine .look fun here => .ite (.behind .step fun _ => ?_) (.refl _)
  exact .bind (onlyAdvances_parseBody advances) (agreeWithin_parseBody agree) fun body => .refl _

/-- The runs inside of an instruction are read where less is left. -/
theorem agreeWithin_parse (advances : ∀ stop, OnlyAdvances (calls stop))
    (agree : ∀ stop, AgreeWithin bound (calls stop) (others stop)) :
    AgreeWithin (bound + 1) (Instruction.parse calls) (Instruction.parse others) := by
  have condition := Condition.onlyAdvances_parse
  have body {next twin : List Instruction → Parser Instruction}
      (agreeNext : ∀ read, AgreeWithin bound (next read) (twin read)) :
      AgreeWithin bound (parseBody calls >>= next) (parseBody others >>= twin) :=
    .bind (onlyAdvances_parseBody advances) (agreeWithin_parseBody agree) agreeNext
  refine .look fun here => .ite (.refl _) ?_
  generalize here.current = letter
  split
  · exact .refl _
  · exact .refl _
  · exact .refl _
  · refine .behind_step (.behind condition fun _ => body fun _ => ?_)
    exact .bind (onlyAdvances_parseElse advances) (agreeWithin_parseElse advances agree) fun _ =>
      .refl _
  · exact .behind_step (.behind condition fun _ => body fun _ => .refl _)
  · refine .behind_step (.bind (advances _) (agree _) fun _ => .behind (.expect _ _) fun _ => ?_)
    refine .behind condition fun _ => .behind (.expect _ _) fun _ => ?_
    exact .bind (advances _) (agree _) fun _ => body fun _ => .refl _
  · exact .refl _

/-- Reads an instruction and calls for the further ones, unless the run stops here. -/
def runTurn (calls : Stop → Parser (List Instruction)) (stop : Stop) :
    Parser (List Instruction) := do
  let here ← Parser.cursor
  if here.exhausted then
    parseSourceEnd stop
  else if stopsAt here.current stop then
    parseStop stop
    return []
  else
    let instruction ← parse calls
    permit stop instruction
    let rest ← calls stop
    return instruction :: rest

/-- Reads all instructions up to where a run stops. -/
def runLoop : Stop → Parser (List Instruction) :=
  fuelled parseRun

theorem callsOnLess_runTurn : CallsOnLess runTurn := by
  intro calls others bound advances agree stop here left
  refine bind_eq_bind rfl fun found middle looked => ?_
  obtain ⟨rfl, rfl⟩ := yields_cursor.mp looked
  split
  · rfl
  next going =>
  split
  · rfl
  -- the run goes on behind an instruction, and that has taken a character
  refine bind_eq_bind (agreeWithin_parse advances agree here left) fun instruction middle ran => ?_
  have shorter := (consumesFrom_parse advances here).consumes (by simpa using going) ran
  refine bind_eq_bind rfl fun _ there permitted => ?_
  obtain ⟨-, rfl⟩ := yields_permit.mp permitted
  exact bind_eq_bind (agree stop middle (by omega)) fun _ _ _ => rfl

theorem spendsFuel_parseRun : SpendsFuel runTurn parseRun where
  unfolds _ := rfl
  atEnd _ _ := .of_end fun here exhausted => (congrFun (if_pos exhausted) here).symm
  advances := onlyAdvances_parseRun
  callsOnLess := callsOnLess_runTurn

/-- A body that is read ends in its closing mark. -/
theorem passes_of_runLoop {start : Nat} {here after : Cursor} {body : List Instruction}
    (yields : (runLoop (.bodyEnd start)).Yields here body after) :
    ∃ text, here.Passes (text ++ ['z']) after := by
  obtain ⟨phrases, passes, -⟩ :=
    soundRun_parseRun here.remaining (Nat.le_of_eq Cursor.remaining_eq.symm) yields
  exact ⟨_, passes⟩

end Instruction

/-! ### Programs -/

/-- Parsing makes progress and comes to an end, whatever the source is.  Values, conditions and
instructions that are read take characters of the source, and a body that is read takes its closing
mark.  With or without success no parser goes back or leaves the source.  And the three parsers that
call themselves, of which all of this is made, come to their end within as many calls inside of each
other as there are characters left, and one more. -/
theorem Program.parsing_comes_to_end :
    Value.parse.Progresses ∧ Condition.parse.Progresses ∧
      (Instruction.parse Instruction.runLoop).Progresses ∧
      (∀ stop, (Instruction.runLoop stop).MovesOn) ∧
      (∀ {start : Nat} {here after : Cursor} {body : List Instruction},
        (Instruction.runLoop (.bodyEnd start)).Yields here body after →
          ∃ text, here.Passes (text ++ ['z']) after) ∧
      ComesToEnd Value.partsTurn Value.partsLoop ∧
      ComesToEnd Condition.linksTurn Condition.linksLoop ∧
      ComesToEnd Instruction.runTurn Instruction.runLoop ∧
      (Value.parse = do
        let first ← Operand.parse
        let rest ← Value.partsLoop ()
        return Value.ofParts (⟨.none, first⟩ :: rest)) ∧
      (Condition.parse = do
        let head ← Condition.parseComparison
        let rest ← Condition.linksLoop ()
        return Condition.ofMembers head rest) ∧
      Program.parseInstructions = Instruction.runLoop .sourceEnd := by
  have value : Value.parse.Progresses := ConsumesFrom.progresses Value.consumesFrom_parse
  have condition : Condition.parse.Progresses :=
    ConsumesFrom.progresses Condition.consumesFrom_parse
  have advances := Instruction.spendsFuel_parseRun.onlyAdvances_fuelled
  have instruction : (Instruction.parse Instruction.runLoop).Progresses :=
    ConsumesFrom.progresses (Instruction.consumesFrom_parse advances)
  have run (stop : Stop) : (Instruction.runLoop stop).MovesOn := (advances stop).movesOn
  exact ⟨value, condition, instruction, run, Instruction.passes_of_runLoop,
    Value.spendsFuel_parseRest.comesToEnd, Condition.spendsFuel_parseLinks.comesToEnd,
    Instruction.spendsFuel_parseRun.comesToEnd, Value.parse_eq_partsLoop,
    Condition.parse_eq_linksLoop, rfl⟩

end Letterline
