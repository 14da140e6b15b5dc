/-
Module: Letterline.Proofs.ProgramJson
Purpose: When a program is read back from the JSON text that a codec writes for it.
Trusted boundary: what a codec is documented to do is a hypothesis (Json.Codec.Documented)
Main exports:
  Program.doubles, Program.SpansFit, Program.ofJson?_toJson_iff, Program.ofJsonText?_write_iff,
  Program.readBack_of_finite, Program.readBack_iff_of_parse
-/
import Letterline.Program.Json
import Letterline.Proofs.JsonText
import Letterline.Proofs.Tiling
import Mathlib.Tactic.Simproc.ExistsAndEq

namespace Letterline

/-!
Every node of a program is written as a record of its contents, so reading a record back is
reading the contents back, one kind of node after the other.  Only doubles can be lost on the
way: one that is not finite is written `null`, which is no number, and of another one the codec
may read a neighbour.  So of a text that a codec reads at all, which it does unless it is nested
too deep, the program comes back exactly if every double in it does.
-/

/-! ### Double literals -/

/-- A double is read as it was written. -/
def Double.ComesBack (reread : Double → Double) (value : Double) : Prop :=
  value.isFinite ∧ reread value = value

def Scalar.doubles : Scalar → List Double
  | .double value => [value]
  | _ => []

def Operand.doubles : Operand → List Double
  | .literal scalar => scalar.doubles
  | _ => []

def Value.doubles (value : Value) : List Double :=
  value.parts.flatMap fun part => part.operand.doubles

namespace Condition

mutual

def doubles : Condition → List Double
  | .compare left _ right => left.doubles ++ right.doubles
  | .chain head rest => head.doubles ++ linksDoubles rest

def linksDoubles : List (Connective × Condition) → List Double
  | [] => []
  | (_, condition) :: rest => condition.doubles ++ linksDoubles rest

end

end Condition

def Modification.doubles : Modification → List Double
  | .increment => []
  | .decrement => []
  | .compound _ value => value.doubles
  | .assign value => value.doubles

namespace Instruction

mutual

/-- The double literals of an instruction, those of its bodies included. -/
def doubles : Instruction → List Double
  | .exit _ => []
  | .print value _ => value.doubles
  | .declare _ value _ => value.doubles
  | .modify _ modification _ => modification.doubles
  | .branch condition thenBody none _ => condition.doubles ++ doublesIn thenBody
  | .branch condition thenBody (some elseBody) _ =>
      condition.doubles ++ doublesIn thenBody ++ doublesIn elseBody
  | .whileLoop condition body _ => condition.doubles ++ doublesIn body
  | .forLoop init condition update body _ =>
      doublesIn init ++ condition.doubles ++ doublesIn update ++ doublesIn body

def doublesIn : List Instruction → List Double
  | [] => []
  | instruction :: rest => instruction.doubles ++ doublesIn rest

end

end Instruction

/-- The double literals of a program. -/
def Program.doubles (program : Program) : List Double :=
  Instruction.doublesIn program.instructions

/-! ### Leaves and values -/

open Json (asRead itemsAsRead fieldsAsRead record? field? tagged?)

-- What a record is read as is decided by what its fields are read as, so reading it back comes to
-- a conjunction: `Option.bind_eq_some_iff` takes the reader apart field by field.
attribute [local simp] asRead fieldsAsRead record? field? tagged? Option.bind_eq_some_iff

variable {reread : Double → Double}

theorem Span.ofJson?_toJson (span : Span) : ofJson? (span.toJson.asRead reread) = some span := by
  simp [toJson, ofJson?, indexOf?]

@[simp] theorem Span.ofField?_toJson (span : Span) :
    ofField? (some (span.toJson.asRead reread)) = some span :=
  span.ofJson?_toJson

theorem Scalar.ofJson?_toJson_iff (scalar : Scalar) :
    ofJson? (scalar.toJson.asRead reread) = some scalar ↔
      ∀ double ∈ scalar.doubles, double.ComesBack reread := by
  cases scalar with
  | int value =>
      have inRange : Int32.minValue.toInt ≤ value.toInt ∧ value.toInt ≤ Int32.maxValue.toInt :=
        ⟨value.minValue_le_toInt, value.toInt_le⟩
      have contents : ofContents? "Int" (.int value.toInt) = some (.int value) := by
        rw [ofContents?, if_pos inRange, Int32.ofInt_toInt]
      simp [toJson, ofJson?, contents, doubles]
  | double value =>
      cases value <;>
        simp [toJson, ofJson?, ofContents?, doubles, Double.ComesBack, Double.isFinite]
  | _ => simp [toJson, ofJson?, ofContents?, doubles]

@[simp] theorem Operator.ofJson?_jsonName (operator : Operator) :
    ofJson? (.string operator.jsonName) = some operator := by
  cases operator <;> rfl

@[simp] theorem Comparator.ofJson?_jsonName (comparator : Comparator) :
    ofJson? (.string comparator.jsonName) = some comparator := by
  cases comparator <;> rfl

@[simp] theorem Connective.ofJson?_jsonName (connective : Connective) :
    ofJson? (.string connective.jsonName) = some connective := by
  cases connective <;> rfl

theorem Operand.ofJson?_toJson_iff (operand : Operand) :
    ofJson? (operand.toJson.asRead reread) = some operand ↔
      ∀ double ∈ operand.doubles, double.ComesBack reread := by
  cases operand with
  | literal scalar => simp [toJson, ofJson?, doubles, ← scalar.ofJson?_toJson_iff]
  | «variable» name => simp [toJson, ofJson?, doubles]
  | input => simp [toJson, ofJson?, doubles]

theorem Part.ofJson?_toJson_iff (part : Part) :
    ofJson? (part.toJson.asRead reread) = some part ↔
      ∀ double ∈ part.operand.doubles, double.ComesBack reread := by
  rcases part with ⟨operator, operand⟩
  simp [toJson, ofJson?, ← operand.ofJson?_toJson_iff]

theorem itemsAsRead_map {α : Type} (toJson : α → Json) (list : List α) :
    itemsAsRead reread (list.map toJson) = list.map fun member => (toJson member).asRead reread := by
  induction list with
  | nil => rfl
  | cons first rest inductionHypothesis =>
      rw [List.map_cons, itemsAsRead, inductionHypothesis, List.map_cons]

/-- A list is read back if and only if each of its members is. -/
theorem mapM_eq_some_self_iff {α : Type} {readBack : α → Option α} {list : List α} :
    list.mapM readBack = some list ↔ ∀ member ∈ list, readBack member = some member := by
  induction list with
  | nil => simp
  | cons first rest inductionHypothesis =>
      simp [List.mapM_cons, inductionHypothesis]

theorem Value.ofJson?_toJson_iff (value : Value) :
    ofJson? (value.toJson.asRead reread) = some value ↔
      ∀ double ∈ value.doubles, double.ComesBack reread := by
  rcases value with ⟨parts, evaluated⟩
  have partsRead : parts.mapM (Part.ofJson? ∘ fun part => part.toJson.asRead reread) = some parts ↔
      ∀ double ∈ doubles ⟨parts, evaluated⟩, double.ComesBack reread := by
    simp only [mapM_eq_some_self_iff, Function.comp_apply, Part.ofJson?_toJson_iff, doubles,
      List.forall_mem_flatMap]
  simp [toJson, ofJson?, itemsAsRead_map, evaluatedOf?, ← partsRead]

theorem Modification.ofJson?_toJson_iff (modification : Modification) :
    ofJson? (modification.toJson.asRead reread) = some modification ↔
      ∀ double ∈ modification.doubles, double.ComesBack reread := by
  cases modification with
  | increment => simp [toJson, ofJson?, doubles]
  | decrement => simp [toJson, ofJson?, doubles]
  | compound operator value => simp [toJson, ofJson?, doubles, ← value.ofJson?_toJson_iff]
  | assign value => simp [toJson, ofJson?, doubles, ← value.ofJson?_toJson_iff]

/-! ### Conditions -/

namespace Condition

open Json (itemsNesting fieldsNesting)

attribute [local simp] or_imp forall_and

theorem nesting_pos (condition : Condition) : 0 < condition.toJson.nesting := by
  cases condition <;> simp [toJson, Json.nesting]

theorem linksOfJson?_iff_of_each {depth : Nat} {rest : List (Connective × Condition)}
    (each : ∀ link ∈ rest, ofJson? depth (link.2.toJson.asRead reread) = some link.2 ↔
      ∀ double ∈ link.2.doubles, double.ComesBack reread) :
    linksOfJson? depth (itemsAsRead reread (linksToJson rest)) = some rest ↔
      ∀ double ∈ linksDoubles rest, double.ComesBack reread := by
  induction rest with
  | nil => simp [linksToJson, itemsAsRead, linksOfJson?, linksDoubles]
  | cons link rest inductionHypothesis =>
      rcases link with ⟨connective, condition⟩
      have first := each (connective, condition) List.mem_cons_self
      have others := inductionHypothesis fun link member =>
        each link (List.mem_cons_of_mem _ member)
      simp [linksToJson, itemsAsRead, linksOfJson?, linksDoubles, ← first, ← others]

theorem nesting_lt_linksToJson {rest : List (Connective × Condition)}
    {link : Connective × Condition} (member : link ∈ rest) :
    link.2.toJson.nesting < itemsNesting (linksToJson rest) := by
  induction rest with
  | nil => cases member
  | cons first rest inductionHypothesis =>
      rcases first with ⟨connective, condition⟩
      simp only [linksToJson, itemsNesting, Json.nesting, fieldsNesting]
      rcases List.mem_cons.mp member with rfl | member
      · simp only
        omega
      · have inRest := inductionHypothesis member
        omega

theorem ofJson?_toJson_iff (condition : Condition) {depth : Nat}
    (enough : condition.toJson.nesting ≤ depth) :
    ofJson? depth (condition.toJson.asRead reread) = some condition ↔
      ∀ double ∈ condition.doubles, double.ComesBack reread := by
  -- The members of a chain are nested less deep than the chain, so the bound goes down with the
  -- fuel of the reader.
  induction depth generalizing condition with
  | zero => exact absurd enough (Nat.not_le_of_gt condition.nesting_pos)
  | succ depth inductionHypothesis =>
      cases condition with
      | compare left comparator right =>
          simp [toJson, ofJson?, doubles, ← left.ofJson?_toJson_iff, ← right.ofJson?_toJson_iff]
      | chain head rest =>
          simp only [toJson, Json.nesting, fieldsNesting] at enough
          have headRead := inductionHypothesis head (by omega)
          have restRead : linksOfJson? depth (itemsAsRead reread (linksToJson rest)) = some rest ↔
              ∀ double ∈ linksDoubles rest, double.ComesBack reread := by
            refine linksOfJson?_iff_of_each fun link member => inductionHypothesis link.2 ?_
            have inRest := nesting_lt_linksToJson member
            omega
          simp [toJson, ofJson?, doubles, ← headRead, ← restRead]

end Condition

/-! ### Instructions -/

namespace Instruction

open Json (itemsNesting fieldsNesting)

attribute [local simp] or_imp forall_and

theorem nesting_pos (instruction : Instruction) : 0 < instruction.toJson.nesting := by
  cases instruction with
  | branch condition thenBody elseBody span => cases elseBody <;> simp [toJson, Json.nesting]
  | _ => simp [toJson, Json.nesting]

theorem listToJson_eq_map (body : List Instruction) : listToJson body = body.map toJson := by
  induction body with
  | nil => rw [listToJson, List.map_nil]
  | cons instruction rest inductionHypothesis =>
      rw [listToJson, inductionHypothesis, List.map_cons]

theorem doublesIn_eq_flatMap (body : List Instruction) : doublesIn body = body.flatMap doubles := by
  induction body with
  | nil => rw [doublesIn, List.flatMap_nil]
  | cons instruction rest inductionHypothesis =>
      rw [doublesIn, inductionHypothesis, List.flatMap_cons]

theorem nesting_le_of_mem {body : List Instruction} {instruction : Instruction}
    (member : instruction ∈ body) :
    instruction.toJson.nesting ≤ itemsNesting (listToJson body) := by
  induction body with
  | nil => cases member
  | cons first rest inductionHypothesis =>
      simp only [listToJson, itemsNesting]
      rcases List.mem_cons.mp member with rfl | member
      · omega
      · have inRest := inductionHypothesis member
        omega

theorem listOfJson?_iff_of_each {read : Json → Option Instruction} {body : List Instruction}
    (each : ∀ instruction ∈ body, read (instruction.toJson.asRead reread) = some instruction ↔
      ∀ double ∈ instruction.doubles, double.ComesBack reread) :
    listOfJson? read (.array (itemsAsRead reread (listToJson body))) = some body ↔
      ∀ double ∈ doublesIn body, double.ComesBack reread := by
  have joined : (body.map fun instruction => instruction.toJson.asRead reread).mapM read =
      body.mapM fun instruction => read (instruction.toJson.asRead reread) :=
    List.mapM_map
  rw [listToJson_eq_map, itemsAsRead_map, listOfJson?, joined, mapM_eq_some_self_iff,
    doublesIn_eq_flatMap, List.forall_mem_flatMap]
  exact forall₂_congr each

theorem ofJson?_toJson_iff (instruction : Instruction) {depth : Nat}
    (enough : instruction.toJson.nesting ≤ depth) :
    ofJson? depth (instruction.toJson.asRead reread) = some instruction ↔
      ∀ double ∈ instruction.doubles, double.ComesBack reread := by
  induction depth generalizing instruction with
  | zero => exact absurd enough (Nat.not_le_of_gt instruction.nesting_pos)
  | succ depth inductionHypothesis =>
      have bodyRead (body : List Instruction) (shallow : itemsNesting (listToJson body) ≤ depth) :
          listOfJson? (ofJson? depth) (.array (itemsAsRead reread (listToJson body))) = some body ↔
            ∀ double ∈ doublesIn body, double.ComesBack reread :=
        listOfJson?_iff_of_each fun instruction member =>
          inductionHypothesis instruction (Nat.le_trans (nesting_le_of_mem member) shallow)
      have conditionRead (condition : Condition) (shallow : condition.toJson.nesting ≤ depth) :
          Condition.ofJson? depth (condition.toJson.asRead reread) = some condition ↔
            ∀ double ∈ condition.doubles, double.ComesBack reread :=
        condition.ofJson?_toJson_iff shallow
      cases instruction with
      | exit span => simp [toJson, ofJson?, doubles]
      | print value span => simp [toJson, ofJson?, doubles, ← value.ofJson?_toJson_iff]
      | declare name value span => simp [toJson, ofJson?, doubles, ← value.ofJson?_toJson_iff]
      | modify name modification span =>
          simp [toJson, ofJson?, doubles, ← modification.ofJson?_toJson_iff]
      | branch condition thenBody elseBody span =>
          cases elseBody with
          | none =>
              simp only [toJson, Json.nesting, fieldsNesting] at enough
              have headRead := conditionRead condition (by omega)
              have thenRead := bodyRead thenBody (by omega)
              simp [toJson, ofJson?, doubles, elseOfJson?, ← headRead, ← thenRead]
          | some elseBody =>
              simp only [toJson, Json.nesting, fieldsNesting] at enough
              have headRead := conditionRead condition (by omega)
              have thenRead := bodyRead thenBody (by omega)
              have elseRead := bodyRead elseBody (by omega)
              simp [toJson, ofJson?, doubles, elseOfJson?, ← headRead, ← thenRead, ← elseRead]
      | whileLoop condition body span =>
          simp only [toJson, Json.nesting, fieldsNesting] at enough
          have headRead := conditionRead condition (by omega)
          have read := bodyRead body (by omega)
          simp [toJson, ofJson?, doubles, ← headRead, ← read]
      | forLoop init condition update body span =>
          simp only [toJson, Json.nesting, fieldsNesting] at enough
          have initRead := bodyRead init (by omega)
          have headRead := conditionRead condition (by omega)
          have updateRead := bodyRead update (by omega)
          have read := bodyRead body (by omega)
          simp [toJson, ofJson?, doubles, ← initRead, ← headRead, ← updateRead, ← read]

end Instruction

/-! ### Integers -/

/-- Both ends of a span are indices of 64 bits. -/
def Span.Fits (span : Span) : Prop :=
  span.start < UInt64.size ∧ span.stop < UInt64.size

instance (span : Span) : Decidable span.Fits :=
  inferInstanceAs (Decidable (_ ∧ _))

theorem Span.fits_over {start : Nat} {text : List Char}
    (short : start + text.length < UInt64.size) : (Span.over start text).Fits :=
  ⟨Nat.lt_of_le_of_lt (Nat.le_add_right start text.length) short, short⟩

open Json (IntegersFit ItemsFit)

theorem Span.integersFit_toJson {span : Span} (fits : span.Fits) : span.toJson.IntegersFit := by
  have natural {index : Nat} (small : index < UInt64.size) : Json.Fits index := by
    have low : Int64.minValue.toInt ≤ 0 := by decide
    exact ⟨by omega, by omega⟩
  exact ⟨natural fits.1, natural fits.2, trivial⟩

theorem Scalar.integersFit_toJson (scalar : Scalar) : scalar.toJson.IntegersFit := by
  cases scalar with
  | int value =>
      have fits : Json.Fits value.toInt := by
        have low : Int64.minValue.toInt ≤ Int32.minValue.toInt := by decide
        have high : Int32.maxValue.toInt < UInt64.size := by decide
        exact ⟨Int.le_trans low value.minValue_le_toInt, Int.lt_of_le_of_lt value.toInt_le high⟩
      exact ⟨trivial, fits, trivial⟩
  | _ => exact ⟨trivial, trivial, trivial⟩

theorem Operand.integersFit_toJson (operand : Operand) : operand.toJson.IntegersFit := by
  cases operand with
  | literal scalar => exact ⟨trivial, scalar.integersFit_toJson, trivial⟩
  | «variable» name => exact ⟨trivial, trivial, trivial⟩
  | input => exact ⟨trivial, trivial⟩

theorem itemsFit_map {α : Type} {toJson : α → Json} {list : List α}
    (each : ∀ member ∈ list, (toJson member).IntegersFit) : ItemsFit (list.map toJson) := by
  induction list with
  | nil => trivial
  | cons first rest inductionHypothesis =>
      exact ⟨each first List.mem_cons_self, inductionHypothesis fun member inside =>
        each member (List.mem_cons_of_mem _ inside)⟩

theorem Value.integersFit_toJson (value : Value) : value.toJson.IntegersFit := by
  have parts : ItemsFit (value.parts.map Part.toJson) :=
    itemsFit_map fun part _ => ⟨trivial, part.operand.integersFit_toJson, trivial⟩
  exact ⟨parts, trivial, trivial⟩

mutual

theorem Condition.integersFit_toJson : ∀ condition : Condition, condition.toJson.IntegersFit
  | .compare left comparator right => by
      rw [Condition.toJson]
      exact ⟨trivial, left.integersFit_toJson, trivial, right.integersFit_toJson, trivial⟩
  | .chain head rest => by
      rw [Condition.toJson]
      exact ⟨trivial, head.integersFit_toJson, Condition.itemsFit_linksToJson rest, trivial⟩

theorem Condition.itemsFit_linksToJson :
    ∀ rest : List (Connective × Condition), ItemsFit (Condition.linksToJson rest)
  | [] => trivial
  | (connective, condition) :: rest => by
      rw [Condition.linksToJson]
      exact ⟨⟨trivial, condition.integersFit_toJson, trivial⟩,
        Condition.itemsFit_linksToJson rest⟩

end

theorem Modification.integersFit_toJson (modification : Modification) :
    modification.toJson.IntegersFit := by
  cases modification with
  | increment => exact ⟨trivial, trivial⟩
  | decrement => exact ⟨trivial, trivial⟩
  | compound operator value => exact ⟨trivial, trivial, value.integersFit_toJson, trivial⟩
  | assign value => exact ⟨trivial, value.integersFit_toJson, trivial⟩

namespace Instruction

@[simp] theorem not_within_nil (inner : Instruction) : ¬ inner.Within [] := by
  intro within
  cases within with
  | here member => cases member
  | inside member => cases member

/-- What stands in a body is its first instruction, or stands inside it or behind it. -/
@[simp] theorem within_cons_iff {inner first : Instruction} {rest : List Instruction} :
    inner.Within (first :: rest) ↔
      inner = first ∨ (∃ body ∈ first.bodies, inner.Within body) ∨ inner.Within rest := by
  constructor
  · intro within
    cases within with
    | here member =>
        rcases List.mem_cons.mp member with same | member
        · exact Or.inl same
        · exact Or.inr (Or.inr (.here member))
    | inside member bodyOf within =>
        rcases List.mem_cons.mp member with rfl | member
        · exact Or.inr (Or.inl ⟨_, bodyOf, within⟩)
        · exact Or.inr (Or.inr (.inside member bodyOf within))
  · rintro (rfl | ⟨body, bodyOf, within⟩ | within)
    · exact .here List.mem_cons_self
    · exact .inside List.mem_cons_self bodyOf within
    · cases within with
      | here member => exact .here (List.mem_cons_of_mem _ member)
      | inside member bodyOf within =>
          exact .inside (List.mem_cons_of_mem _ member) bodyOf within

theorem within_of_bodies {inner parent : Instruction} {body : List Instruction}
    (within : inner.Within body) (bodyOf : body ∈ parent.bodies) : inner.Within [parent] :=
  .inside List.mem_cons_self bodyOf within

mutual

/-- The integers of an instruction fit if the spans in it do. -/
theorem integersFit_toJson : ∀ instruction : Instruction,
    (∀ inner : Instruction, inner.Within [instruction] → inner.span.Fits) →
      instruction.toJson.IntegersFit
  | .exit span, spans => by
      have fits := Span.integersFit_toJson (spans _ (.here List.mem_cons_self))
      rw [toJson]
      exact ⟨trivial, fits, trivial⟩
  | .print value span, spans => by
      have fits := Span.integersFit_toJson (spans _ (.here List.mem_cons_self))
      rw [toJson]
      exact ⟨trivial, value.integersFit_toJson, fits, trivial⟩
  | .declare name value span, spans => by
      have fits := Span.integersFit_toJson (spans _ (.here List.mem_cons_self))
      rw [toJson]
      exact ⟨trivial, trivial, value.integersFit_toJson, fits, trivial⟩
  | .modify name modification span, spans => by
      have fits := Span.integersFit_toJson (spans _ (.here List.mem_cons_self))
      rw [toJson]
      exact ⟨trivial, trivial, modification.integersFit_toJson, fits, trivial⟩
  | .branch condition thenBody none span, spans => by
      have fits := Span.integersFit_toJson (spans _ (.here List.mem_cons_self))
      have thenFits := itemsFit_listToJson thenBody fun inner within =>
        spans inner (within_of_bodies within (by simp [bodies]))
      rw [toJson]
      exact ⟨trivial, condition.integersFit_toJson, thenFits, trivial, fits, trivial⟩
  | .branch condition thenBody (some elseBody) span, spans => by
      have fits := Span.integersFit_toJson (spans _ (.here List.mem_cons_self))
      have thenFits := itemsFit_listToJson thenBody fun inner within =>
        spans inner (within_of_bodies within (by simp [bodies]))
      have elseFits := itemsFit_listToJson elseBody fun inner within =>
        spans inner (within_of_bodies within (by simp [bodies]))
      rw [toJson]
      exact ⟨trivial, condition.integersFit_toJson, thenFits, elseFits, fits, trivial⟩
  | .whileLoop condition body span, spans => by
      have fits := Span.integersFit_toJson (spans _ (.here List.mem_cons_self))
      have bodyFits := itemsFit_listToJson body fun inner within =>
        spans inner (within_of_bodies within (by simp [bodies]))
      rw [toJson]
      exact ⟨trivial, condition.integersFit_toJson, bodyFits, fits, trivial⟩
  | .forLoop init condition update body span, spans => by
      have fits := Span.integersFit_toJson (spans _ (.here List.mem_cons_self))
      have initFits := itemsFit_listToJson init fun inner within =>
        spans inner (within_of_bodies within (by simp [bodies]))
      have updateFits := itemsFit_listToJson update fun inner within =>
        spans inner (within_of_bodies within (by simp [bodies]))
      have bodyFits := itemsFit_listToJson body fun inner within =>
        spans inner (within_of_bodies within (by simp [bodies]))
      rw [toJson]
      exact ⟨trivial, initFits, condition.integersFit_toJson, updateFits, bodyFits, fits, trivial⟩

theorem itemsFit_listToJson : ∀ body : List Instruction,
    (∀ inner : Instruction, inner.Within body → inner.span.Fits) → ItemsFit (listToJson body)
  | [], _ => trivial
  | instruction :: rest, spans => by
      rw [listToJson]
      refine ⟨integersFit_toJson instruction fun inner within => spans inner ?_,
        itemsFit_listToJson rest fun inner within => spans inner ?_⟩
      · simpa [or_assoc] using Or.inl (b := inner.Within rest) within
      · exact within_cons_iff.mpr (Or.inr (Or.inr within))

end

end Instruction

/-! ### Programs -/

namespace Program

/-- All spans of a program are of indices of 64 bits. -/
def SpansFit (program : Program) : Prop :=
  program.span.Fits ∧
    ∀ instruction : Instruction, instruction.Within program.instructions → instruction.span.Fits

theorem integersFit_toJson {program : Program} (fits : program.SpansFit) :
    program.toJson.IntegersFit :=
  ⟨Instruction.itemsFit_listToJson program.instructions fits.2,
    Span.integersFit_toJson fits.1, trivial⟩

theorem ofJson?_toJson_iff (program : Program) :
    ofJson? (program.toJson.asRead reread) = some program ↔
      ∀ double ∈ program.doubles, double.ComesBack reread := by
  rcases program with ⟨instructions, span⟩
  have read : Instruction.listOfJson?
      (Instruction.ofJson? ((toJson ⟨instructions, span⟩).asRead reread).nesting)
      (.array (itemsAsRead reread (Instruction.listToJson instructions))) = some instructions ↔
        ∀ double ∈ Instruction.doublesIn instructions, double.ComesBack reread := by
    refine Instruction.listOfJson?_iff_of_each fun instruction member =>
      Instruction.ofJson?_toJson_iff instruction ?_
    have shallow := Instruction.nesting_le_of_mem member
    rw [Json.nesting_asRead]
    simp only [toJson, Json.nesting, Json.fieldsNesting]
    omega
  have record : ((toJson ⟨instructions, span⟩).asRead reread).record? ["instructions", "span"] 1 =
      some [some (.array (itemsAsRead reread (Instruction.listToJson instructions))),
        some (span.toJson.asRead reread)] := by
    simp [toJson]
  simp only [ofJson?, record, Span.ofField?_toJson, doubles, ← read]
  simp

section Codecs

variable {codec : Json.Codec} (documented : codec.Documented reread) (style : Json.Style)

include documented

/-- A codec reads the text of a program as the program if and only if the text is not nested too
deep and every double in it comes back. -/
theorem ofJsonText?_write_iff {program : Program} (fits : program.SpansFit) :
    ofJsonText? codec (codec.write style program.toJson) = some program ↔
      program.toJson.nesting < Json.nestingLimit ∧
        ∀ double ∈ program.doubles, double.ComesBack reread := by
  rcases Nat.lt_or_ge program.toJson.nesting Json.nestingLimit with shallow | deep
  · rw [ofJsonText?, documented.reads style _ (integersFit_toJson fits) shallow, Option.bind_some,
      ofJson?_toJson_iff]
    exact (and_iff_right shallow).symm
  · rw [ofJsonText?, documented.refuses style _ (integersFit_toJson fits) deep, Option.bind_none]
    simp [Nat.not_lt.mpr deep]

/-- No codec reads a text that is nested too deep. -/
theorem ofJsonText?_write_of_deep {program : Program} (fits : program.SpansFit)
    (deep : Json.nestingLimit ≤ program.toJson.nesting) :
    ofJsonText? codec (codec.write style program.toJson) = none := by
  rw [ofJsonText?, documented.refuses style _ (integersFit_toJson fits) deep, Option.bind_none]

end Codecs

/-- The spans of what is read lie in the source. -/
theorem SpansFit.of_parse {source : String} {program : Program}
    (parsed : parse source = .ok program) (short : source.length < UInt64.size) :
    program.SpansFit := by
  obtain ⟨_, _, phrase, text, rfl⟩ := exists_phrase_of_parse parsed
  have length : phrase.text.length < UInt64.size := by
    rwa [text, String.length_toList]
  refine ⟨Span.fits_over (by rwa [Nat.zero_add]), fun instruction within => ?_⟩
  obtain ⟨front, found, back, parts, rfl⟩ :=
    InstructionPhrase.exists_phrase_of_within within rfl
  have inside : phrase.text.length = front.length + (found.text.length + back.length) := by
    rw [ProgramPhrase.text, parts, List.length_append, List.length_append]
  rw [InstructionPhrase.span_instruction]
  exact Span.fits_over (by omega)

/-- A program that no source has: chains without parts, chains without links, a mark where
nothing was evaluated, an exit in the head of a loop, and names and texts of any characters. -/
def unparsed : Program :=
  ⟨[.forLoop [.exit ⟨9, 2⟩]
      (.chain (.chain (.compare ⟨[], true⟩ .equal ⟨[⟨.times, .literal (.string "\x00\"é\\")⟩], false⟩)
        []) [(.xor, .compare ⟨[⟨.none, .input⟩], true⟩ .lessOrEqual
          ⟨[⟨.none, .literal (.char '\n')⟩, ⟨.none, .literal (.double (.zero true))⟩], false⟩)])
      [] [.modify "Größe 🦀" (.assign ⟨[⟨.plus, .variable ""⟩], true⟩) ⟨0, 18446744073709551615⟩]
      ⟨5, 5⟩,
    .branch (.compare ⟨[], false⟩ .less ⟨[], false⟩) [] (some []) ⟨0, 0⟩], ⟨7, 3⟩⟩

/-- A program of loops inside each other, with nothing in the innermost. -/
def nested (count : Nat) : Program :=
  ⟨loops count, ⟨0, 0⟩⟩
where
  loops : Nat → List Instruction
    | 0 => []
    | count + 1 => [.whileLoop (.compare (.ofParts []) .equal (.ofParts [])) (loops count) ⟨0, 0⟩]

/-- Every loop adds its record and the list around it. -/
theorem nesting_toJson_nested (count : Nat) :
    (nested (count + 1)).toJson.nesting = 2 * count + 6 := by
  have span : (Span.toJson ⟨0, 0⟩).nesting = 1 := by decide
  have condition : (Condition.compare (.ofParts []) .equal (.ofParts [])).toJson.nesting = 3 := by
    decide
  have loops : Json.itemsNesting (Instruction.listToJson (nested.loops (count + 1))) =
      2 * count + 4 := by
    induction count with
    | zero => decide
    | succ count inductionHypothesis =>
        rw [nested.loops]
        simp only [Instruction.listToJson, Instruction.toJson, Json.itemsNesting, Json.nesting,
          Json.fieldsNesting, inductionHypothesis, span, condition]
        omega
  simp only [nested, toJson, Json.nesting, Json.fieldsNesting, loops, span]
  omega

theorem spansFit_nested (count : Nat) : (nested count).SpansFit := by
  have empty : Span.Fits ⟨0, 0⟩ := by decide
  refine ⟨empty, fun instruction within => ?_⟩
  rw [nested] at within
  induction count with
  | zero => exact absurd within (Instruction.not_within_nil instruction)
  | succ count inductionHypothesis =>
      simp [nested.loops, Instruction.bodies] at within
      rcases within with rfl | within
      · exact empty
      · exact inductionHypothesis within

theorem doubles_nested (count : Nat) : (nested count).doubles = [] := by
  rw [nested, doubles]
  induction count with
  | zero => rfl
  | succ count inductionHypothesis =>
      simp [nested.loops, Instruction.doublesIn, Instruction.doubles, Condition.doubles,
        Value.doubles, Value.ofParts, inductionHypothesis]

/-- The program of a source is read back from its text if and only if the text is not nested too
deep, no double literal is past every finite one, and each is read as it was written. -/
theorem readBack_iff_of_parse {codec : Json.Codec} (documented : codec.Documented reread)
    {source : String} {program : Program} (parsed : parse source = .ok program)
    (short : source.length < UInt64.size) (style : Json.Style) :
    ofJsonText? codec (codec.write style program.toJson) = some program ↔
      program.toJson.nesting < Json.nestingLimit ∧
        ∀ double ∈ program.doubles, double.isFinite ∧ reread double = double :=
  ofJsonText?_write_iff documented style (.of_parse parsed short)

theorem readBack_of_small_double :
    Json.Codec.plain.Documented id ∧
      ∃ program, parse "hd-0.75e-2dlxl" = .ok program ∧ "hd-0.75e-2dlxl".length < UInt64.size ∧
        ofJsonText? .plain (program.jsonText .indented) = some program := by
  have short : "hd-0.75e-2dlxl".length < UInt64.size := by decide
  obtain ⟨program, parsed, passes⟩ := exists_parse_of_any "hd-0.75e-2dlxl"
    (fun program => program.toJson.nesting < Json.nestingLimit ∧
      ∀ double ∈ program.doubles, double.isFinite) (by decide +kernel)
  obtain ⟨shallow, finite⟩ := of_decide_eq_true passes
  have read := (readBack_iff_of_parse Json.Codec.documented_plain parsed short .indented).mpr
    ⟨shallow, fun double member => ⟨finite double member, rfl⟩⟩
  exact ⟨Json.Codec.documented_plain, program, parsed, short, read⟩

/-- A number past every finite double is written `null`, which is no number. -/
theorem not_readBack_of_large_double :
    ∃ program, parse "hd1e400dlxl" = .ok program ∧ Json.Codec.plain.Documented id ∧
      ∀ (codec : Json.Codec) (reread : Double → Double), codec.Documented reread →
        ∀ style : Json.Style,
          ofJsonText? codec (codec.write style program.toJson) ≠ some program := by
  obtain ⟨program, parsed, infinite⟩ := exists_parse_of_any "hd1e400dlxl"
    (fun program => ∃ double ∈ program.doubles, double.isFinite = false) (by decide +kernel)
  obtain ⟨double, member, infinite⟩ := of_decide_eq_true infinite
  have fits : program.SpansFit := .of_parse parsed (by decide)
  refine ⟨program, parsed, Json.Codec.documented_plain, fun codec reread documented style read => ?_⟩
  have comesBack := ((ofJsonText?_write_iff documented style fits).mp read).2 double member
  exact absurd comesBack.1 (by simp [infinite])

end Program

end Letterline
