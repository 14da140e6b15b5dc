/-
Module: Letterline.Proofs.Isolation
Purpose: A variable that a program does not mention has no part in its runs, and is left as it
  was.
Trusted boundary: none
Main exports:
  Value.result_congr, Condition.evaluate_congr, Modification.newValue_congr, Store.SameBut,
  Store.Hides, Store.LeftAsIs, Program.inStep_of_unmentioned, Session.isolated_from_unmentioned
-/
import Letterline.Proofs.Nesting
import Letterline.Proofs.ParserComplete
import Letterline.Proofs.Preservation
import Letterline.Proofs.Simulation

namespace Letterline

/-!
The variables of a program that runs later stand in the same table as those of the programs
before it, and frames own names of both.  Still a program meets no variable that it does not
mention: evaluation looks at names only, changes are made under names, and closing a frame
removes by name.  So from two stores that differ in one such variable, or in whether there is
one, runs keep in step, and neither touches it.
-/

/-! ### Evaluation looks at the names that are read -/

section Lookup

variable {here there : Store}

theorem Operand.resolve_congr {operand : Operand}
    (same : ∀ name, operand = .variable name → here.lookup? name = there.lookup? name) :
    operand.resolve here = operand.resolve there := by
  cases operand with
  | literal scalar => rfl
  | «variable» name => rw [resolve, resolve, same name rfl]
  | input => rfl

namespace Value

theorem fold_congr {parts : List Part}
    (same : ∀ part ∈ parts, ∀ name, part.operand = .variable name →
      here.lookup? name = there.lookup? name) (accumulated : Option Scalar) :
    fold here accumulated parts = fold there accumulated parts := by
  induction parts generalizing accumulated with
  | nil => rfl
  | cons part rest inductionHypothesis =>
      have first := Operand.resolve_congr (same part List.mem_cons_self)
      have others := inductionHypothesis fun part member =>
        same part (List.mem_cons_of_mem _ member)
      simp only [fold, first, others]

theorem result_congr {value : Value}
    (same : ∀ name ∈ value.namesRead, here.lookup? name = there.lookup? name) :
    value.result here = value.result there := by
  have folded : fold here none value.parts = fold there none value.parts :=
    fold_congr (fun part member name read =>
      same name (mem_namesRead.mpr ⟨part, member, read⟩)) none
  rw [result, result, folded]

theorem evaluate_congr {value : Value}
    (same : ∀ name ∈ value.namesRead, here.lookup? name = there.lookup? name) :
    value.evaluate here = value.evaluate there := by
  rw [evaluate, evaluate, result_congr same]

/-- An extended value reads what its parts read. -/
theorem namesRead_extend (value other : Value) (operator : Operator) :
    (value.extend operator other).namesRead = value.namesRead ++ other.namesRead := by
  rcases other with ⟨parts, evaluated⟩
  cases parts with
  | nil => simp [extend, ofParts, joinedBy, namesRead]
  | cons first rest => simp [extend, ofParts, joinedBy, namesRead, List.filterMap_cons]

end Value

namespace Condition

mutual

/-- A condition looks at its values only. -/
theorem evaluate_congr : ∀ condition : Condition,
    (∀ value ∈ condition.values, value.result here = value.result there) →
      condition.evaluate here = condition.evaluate there
  | .compare left comparator right, same => by
      have leftSame := same left (by simp [values])
      have rightSame := same right (by simp [values])
      simp only [evaluate, leftSame, rightSame]
  | .chain head rest, same => by
      have headSame := evaluate_congr head fun value member =>
        same value (by simp [values, member])
      have restSame := evaluateLinks_congr rest fun value member =>
        same value (by simp [values, member])
      simp only [evaluate, headSame, restSame]

theorem evaluateLinks_congr : ∀ links : List (Connective × Condition),
    (∀ value ∈ linkValues links, value.result here = value.result there) →
      ∀ truth, evaluateLinks here truth links = evaluateLinks there truth links
  | [], _, truth => by rw [evaluateLinks, evaluateLinks]
  | (connective, condition) :: rest, same, truth => by
      have headSame := evaluate_congr condition fun value member =>
        same value (by simp [linkValues, member])
      have restSame := evaluateLinks_congr rest fun value member =>
        same value (by simp [linkValues, member])
      simp only [evaluateLinks, headSame, restSame]

end

end Condition

/-- A modification looks at its target, and at the names that the value of the target and its
own value read. -/
theorem Modification.newValue_congr {target : String} {modification : Modification}
    (sameTarget : here.lookup? target = there.lookup? target)
    (sameInside : ∀ entry, here.lookup? target = some entry →
      ∀ name ∈ entry.value.namesRead, here.lookup? name = there.lookup? name)
    (same : ∀ name ∈ modification.namesRead, here.lookup? name = there.lookup? name) :
    modification.newValue target here = modification.newValue target there := by
  rw [newValue, newValue, ← sameTarget]
  cases found : here.lookup? target with
  | none => rfl
  | some entry =>
      have extended (operator : Operator) (value : Value)
          (sameRead : ∀ name ∈ value.namesRead, here.lookup? name = there.lookup? name) :
          (entry.value.extend operator value).evaluate here =
            (entry.value.extend operator value).evaluate there := by
        refine Value.evaluate_congr fun name member => ?_
        rw [Value.namesRead_extend, List.mem_append] at member
        exact member.elim (sameInside entry found name) (sameRead name)
      have sameOne : ∀ name ∈ Value.one.namesRead, here.lookup? name = there.lookup? name := by
        intro name member
        cases member
      cases modification with
      | increment => exact extended .plus .one sameOne
      | decrement => exact extended .minus .one sameOne
      | compound operator value => exact extended operator value same
      | assign value => simp only [apply, Value.result_congr same]

end Lookup

/-! ### Stores that differ in one variable -/

namespace Store

variable {name other : String} {here there before middle after : Store}

/-- Two stores have the same variables in the same order, and frames of the same names, but
for one name. -/
structure SameBut (name : String) (here there : Store) : Prop where
  table : without [name] here.table = without [name] there.table
  frames : here.frames.map (·.filter (· ≠ name)) = there.frames.map (·.filter (· ≠ name))

/-- No other variable of a store has a value that reads a name. -/
def Hides (name : String) (store : Store) : Prop :=
  ∀ entry ∈ store.table, entry.name ≠ name → name ∉ entry.value.namesRead

/-- In a settled store no variable has a value that reads any name. -/
theorem Settled.hides (settled : here.Settled) (name : String) : here.Hides name := by
  intro entry member _
  obtain ⟨scalar, value⟩ := settled entry member
  rw [value]
  nofun

namespace SameBut

theorem lookup (same : SameBut name here there) (differs : other ≠ name) :
    here.lookup? other = there.lookup? other := by
  have looked (store : Store) :
      (without [name] store.table).find? (·.name == other) = store.lookup? other := by
    rw [without, find?_filter_name, if_neg (by simpa using differs)]
    rfl
  rw [← looked here, ← looked there, same.table]

theorem isDeclared (same : SameBut name here there) (differs : other ≠ name) :
    here.isDeclared other = there.isDeclared other := by
  rw [Store.isDeclared, Store.isDeclared, same.lookup differs]

theorem push (same : SameBut name here there) : SameBut name here.push there.push :=
  ⟨same.table, congrArg ([] :: ·) same.frames⟩

theorem pop (same : SameBut name here there) : SameBut name here.pop there.pop := by
  have top (store : Store) : store.topNames.filter (· ≠ name) =
      (store.frames.map (·.filter (· ≠ name))).head?.getD [] := by
    rw [topNames]
    cases store.frames <;> rfl
  have popped (store : Store) : without [name] store.pop.table =
      without (store.topNames.filter (· ≠ name)) (without [name] store.table) := by
    rw [table_pop, without_without, without_without]
    refine without_congr fun other => ?_
    by_cases same : other = name <;> simp [same]
  refine ⟨?_, ?_⟩
  · rw [popped, popped, top, top, same.table, same.frames]
  · rw [frames_pop, frames_pop, List.map_tail, List.map_tail, same.frames]

theorem set (same : SameBut name here there) (value : Value) :
    SameBut name (here.set other value) (there.set other value) := by
  have changed (store : Store) : without [name] (store.set other value).table =
      replace other value (without [name] store.table) :=
    without_map fun entry => by split <;> rfl
  exact ⟨by rw [changed, changed, same.table], same.frames⟩

theorem declare (same : SameBut name here there) (differs : other ≠ name) (value : Value) :
    SameBut name (here.declare other value) (there.declare other value) := by
  have table (store : Store) : without [name] (store.declare other value).table =
      if store.isDeclared other then replace other value (without [name] store.table)
      else without [name] store.table ++ [⟨other, value⟩] := by
    rw [Store.declare]
    split
    · exact without_map fun entry => by split <;> rfl
    · simp [without, differs]
  have frames (frames : List (List String)) : (record other frames).map (·.filter (· ≠ name)) =
      record other (frames.map (·.filter (· ≠ name))) := by
    cases frames with
    | nil => simp [record, differs]
    | cons top rest => by_cases owned : other ∈ top <;> simp [record, owned, differs]
  refine ⟨?_, ?_⟩
  · rw [table, table, same.table, same.isDeclared differs]
  · rw [frames_declare, frames_declare, frames, frames, same.frames]

end SameBut

/-! ### What is hidden stays hidden -/

namespace Hides

theorem push (hides : here.Hides name) : here.push.Hides name :=
  hides

theorem pop (hides : here.Hides name) : here.pop.Hides name := by
  intro entry member
  rw [table_pop] at member
  exact hides entry (List.mem_filter.mp member).1

theorem set (hides : here.Hides name) (other : String) (scalar : Scalar) :
    (here.set other (.ofScalar scalar)).Hides name := by
  intro entry member differs
  obtain ⟨old, oldMember, rfl⟩ := List.mem_map.mp member
  by_cases changed : old.name = other
  · rw [if_pos changed]
    nofun
  · rw [if_neg changed] at differs ⊢
    exact hides old oldMember differs

theorem declare (hides : here.Hides name) (other : String) (scalar : Scalar) :
    (here.declare other (.ofScalar scalar)).Hides name := by
  intro entry member differs
  simp only [Store.declare] at member
  split at member
  · exact hides.set other scalar entry member differs
  · rcases List.mem_append.mp member with old | new
    · exact hides entry old differs
    · rw [List.mem_singleton.mp new]
      intro read
      cases read

end Hides

/-! ### What is left as it was -/

/-- The variables of a name, and whether the top frame owns it, are as they were, and the other
frames are too. -/
structure LeftAsIs (name : String) (before after : Store) : Prop where
  entries : after.table.filter (·.name = name) = before.table.filter (·.name = name)
  owned : name ∈ after.topNames ↔ name ∈ before.topNames
  below : after.frames.tail = before.frames.tail

/-- A change under another name does not show in the variables of a name. -/
theorem filter_replace {value : Value} (differs : other ≠ name) (table : List Variable) :
    (replace other value table).filter (·.name = name) = table.filter (·.name = name) := by
  have sameName (entry : Variable) :
      (if entry.name = other then { entry with value := value } else entry).name = entry.name := by
    split <;> rfl
  simp only [replace, List.filter_map, Function.comp_def, sameName]
  refine (List.map_congr_left fun entry member => ?_).trans (List.map_id _)
  have named : entry.name = name := of_decide_eq_true (List.mem_filter.mp member).2
  exact if_neg fun same => differs (same.symm.trans named)

/-- What is done under other names leaves a name as it was. -/
theorem preserves_leftAsIs (name : String) : Preserves (· ≠ name) (LeftAsIs name) where
  refl store := ⟨rfl, Iff.rfl, rfl⟩
  trans first second :=
    ⟨second.entries.trans first.entries, second.owned.trans first.owned,
      second.below.trans first.below⟩
  frame := by
    intro store after inside
    have outside : name ∉ after.topNames := fun owned => nomatch inside.owned.mp owned
    have frames : after.pop.frames = store.frames := (frames_pop).trans inside.below
    refine ⟨?_, ?_, ?_⟩
    · rw [table_pop, without, List.filter_filter]
      refine Eq.trans (List.filter_congr fun entry _ => ?_) inside.entries
      by_cases same : entry.name = name <;> simp [same, outside]
    · rw [topNames, topNames, frames]
    · rw [frames]
  declare := by
    intro other scalar store differs
    refine ⟨?_, ?_, tail_record store.frames⟩
    · rw [Store.declare]
      split
      · exact filter_replace differs store.table
      · simp [differs]
    · exact (mem_head_record store.frames).trans (or_iff_right (Ne.symm differs))
  set := by
    intro other scalar store differs
    exact ⟨filter_replace differs store.table, Iff.rfl, rfl⟩

end Store

/-! ### Runs from stores that differ in one variable -/

section Runs

open Execution Store

variable {name : String} {limit : Nat}

/-- Stores that differ in one name, which no other variable reads. -/
structure Store.Isolated (name : String) (here there : Store) : Prop where
  same : SameBut name here there
  hidden : here.Hides name

theorem Store.frameStable_isolated (name : String) : FrameStable (Isolated name) where
  push isolated := ⟨isolated.same.push, isolated.hidden.push⟩
  pop isolated := ⟨isolated.same.pop, isolated.hidden.pop⟩

theorem Value.result_of_isolated {value : Value} (unread : name ∉ value.namesRead)
    {here there : Store} (isolated : Isolated name here there) :
    value.result here = value.result there :=
  result_congr fun _ read => isolated.same.lookup fun same => unread (same ▸ read)

theorem Condition.evaluate_of_isolated {condition : Condition} (unread : name ∉ condition.namesRead)
    {here there : Store} (isolated : Isolated name here there) :
    condition.evaluate here = condition.evaluate there := by
  refine evaluate_congr condition fun value member => value.result_of_isolated ?_ isolated
  exact fun read => unread (List.mem_flatMap.mpr ⟨value, member, read⟩)

theorem Modification.newValue_of_isolated {target : String} {modification : Modification}
    (differs : target ≠ name) (unread : name ∉ modification.namesRead) {here there : Store}
    (isolated : Isolated name here there) :
    modification.newValue target here = modification.newValue target there := by
  refine newValue_congr (isolated.same.lookup differs) (fun entry found other read => ?_)
    fun other read => isolated.same.lookup fun same => unread (same ▸ read)
  have member := List.mem_of_find?_eq_some found
  have named := name_of_lookup found
  refine isolated.same.lookup fun same => ?_
  exact isolated.hidden entry member (named ▸ differs) (same ▸ read)

namespace Instruction

mutual

/-- An instruction keeps in step with itself where it does not mention what is different. -/
theorem inStep_execute : ∀ instruction : Instruction, name ∉ instruction.names →
    Execution.InStep Eq (Isolated name) (execute limit instruction) (execute limit instruction)
  | .exit _, _ => .still .exits
  | .print value _, unmentioned => by
      rw [execute]
      exact .given_of_eq (fun _ => rfl)
        (fun _ _ isolated => value.result_of_isolated unmentioned isolated)
        fun _ => .print (fun _ => rfl) _
  | .declare target value _, unmentioned => by
      simp only [names, List.mem_cons, not_or] at unmentioned
      rw [execute]
      refine .given_of_eq (fun _ => rfl)
        (fun _ _ isolated => value.result_of_isolated unmentioned.2 isolated)
        fun {_ scalar} _ => .change fun here there isolated => ?_
      exact ⟨isolated.same.declare (Ne.symm unmentioned.1) _, isolated.hidden.declare target scalar⟩
  | .modify target modification _, unmentioned => by
      simp only [names, List.mem_cons, not_or] at unmentioned
      rw [execute]
      refine .given_of_eq (fun _ => rfl)
        (fun _ _ isolated =>
          modification.newValue_of_isolated (Ne.symm unmentioned.1) unmentioned.2 isolated)
        fun evaluated => .change fun here there isolated => ?_
      obtain ⟨scalar, rfl⟩ := Modification.newValue_settled evaluated
      exact ⟨isolated.same.set _, isolated.hidden.set target scalar⟩
  | .branch condition thenBody none _, unmentioned => by
      simp only [names, List.mem_append, not_or] at unmentioned
      rw [execute]
      refine .inFrame (frameStable_isolated name) (.given_of_eq (fun _ => rfl)
        (fun _ _ isolated => condition.evaluate_of_isolated unmentioned.1 isolated)
        fun {_ truth} _ => ?_)
      cases truth with
      | true => exact inStep_executeAll thenBody unmentioned.2
      | false => exact .still .proceeds
  | .branch condition thenBody (some elseBody) _, unmentioned => by
      simp only [names, List.mem_append, not_or] at unmentioned
      rw [execute]
      refine .inFrame (frameStable_isolated name) (.given_of_eq (fun _ => rfl)
        (fun _ _ isolated => condition.evaluate_of_isolated unmentioned.1.1 isolated)
        fun {_ truth} _ => ?_)
      cases truth with
      | true => exact inStep_executeAll thenBody unmentioned.1.2
      | false => exact inStep_executeAll elseBody unmentioned.2
  | .whileLoop condition body _, unmentioned => by
      simp only [names, List.mem_append, not_or] at unmentioned
      rw [execute]
      exact .repeatWhile (fun _ _ isolated => Evaluation.inStep_of_eq (fun _ => rfl)
        (condition.evaluate_of_isolated unmentioned.1 isolated))
        (.inFrame (frameStable_isolated name) (inStep_executeAll body unmentioned.2)) limit
  | .forLoop init condition update body _, unmentioned => by
      simp only [names, List.mem_append, not_or] at unmentioned
      obtain ⟨⟨⟨notInInit, unread⟩, notInUpdate⟩, notInBody⟩ := unmentioned
      rw [execute]
      exact .inFrame (frameStable_isolated name) (.andThen (inStep_executeAll init notInInit)
        (.repeatWhile (fun _ _ isolated => Evaluation.inStep_of_eq (fun _ => rfl)
          (condition.evaluate_of_isolated unread isolated))
          (.inFrame (frameStable_isolated name)
            (.andThen (inStep_executeAll body notInBody) (inStep_executeAll update notInUpdate)))
          limit))

/-- So do instructions in a row. -/
theorem inStep_executeAll : ∀ body : List Instruction, name ∉ namesIn body →
    Execution.InStep Eq (Isolated name) (executeAll limit body) (executeAll limit body)
  | [], _ => .still .proceeds
  | instruction :: rest, unmentioned => by
      simp only [namesIn, List.mem_append, not_or] at unmentioned
      rw [executeAll]
      exact .andThen (inStep_execute instruction unmentioned.1)
        (inStep_executeAll rest unmentioned.2)

end

end Instruction

/-- So does a program. -/
theorem Program.inStep_of_unmentioned {program : Program} (unmentioned : name ∉ program.names) :
    Execution.InStep Eq (Isolated name) (program.execute limit) (program.execute limit) :=
  inStep_execute (fun _ => rfl) (Instruction.inStep_executeAll program.instructions unmentioned)

end Runs

namespace Session

variable {σ : Type}

/-- However a run of a program that does not mention a name ends, it leaves the name as it
was. -/
theorem leftAsIs_of_hold {name : String} {program : Program} (unmentioned : name ∉ program.names)
    (console : Console σ) (limit : Nat) (session : Session σ) :
    Store.LeftAsIs name session.store
      (session.hold console (program.execute limit)).2.store := by
  have keeps : Execution.Keeps (Store.LeftAsIs name) (program.execute limit) :=
    program.keeps_execute (Store.preserves_leftAsIs name) fun other member same =>
      unmentioned (same ▸ member)
  exact keeps.on (Dialogue.mayEnd_run console (program.execute limit session.store) session.world)

/-- A variable that a program does not mention is isolated from it.  From two stores that differ
in it only, and where no other value reads it, runs of the program on one console pass the same
exchanges under every limit.  Both go on for ever, or both end in one way, with the console in
one state and with stores that still differ in the variable only.  In both runs the variable
itself is left as it was. -/
theorem isolated_from_unmentioned (console : Console σ) {name : String} {program : Program}
    (unmentioned : name ∉ program.names) {here there : Session σ}
    (beside : here.Beside (Store.SameBut name) there) (hidden : here.store.Hides name) :
    (∀ limit, here.exchanges console (program.execute limit) =
      there.exchanges console (program.execute limit)) ∧
    ((here.Diverges console (program.execute ·) ∧ there.Diverges console (program.execute ·)) ∨
      ∃ ending after otherAfter record,
        here.Ends console (program.execute ·) ending after record ∧
        there.Ends console (program.execute ·) ending otherAfter record ∧
        after.Beside (Store.SameBut name) otherAfter ∧
        Store.LeftAsIs name here.store after.store ∧
        Store.LeftAsIs name there.store otherAfter.store) := by
  have isolated : here.Beside (Store.Isolated name) there := ⟨⟨beside.store, hidden⟩, beside.world⟩
  have leaves {session after : Session σ} {ending : Ending} {record : List Exchange}
      (ends : session.Ends console (program.execute ·) ending after record) :
      Store.LeftAsIs name session.store after.store := by
    obtain ⟨enough, settled⟩ := ends.settled
    have left := leftAsIs_of_hold unmentioned console enough session
    rwa [(settled enough (Nat.le_refl enough)).1] at left
  refine ⟨fun limit => (hold_inStep (program.inStep_of_unmentioned unmentioned) isolated).2.2, ?_⟩
  obtain diverge | ⟨ending, otherEnding, after, otherAfter, record, ends, otherEnds, endings,
      reached⟩ := keeps_in_step (fun le => program.agrees_execute le)
        (fun le => program.agrees_execute le)
        (fun _ => program.inStep_of_unmentioned unmentioned) isolated
  · exact Or.inl diverge
  · rw [← endings.eq] at otherEnds
    exact Or.inr ⟨ending, after, otherAfter, record, ends, otherEnds,
      ⟨reached.store.same, reached.world⟩, leaves ends, leaves otherEnds⟩

/-- A session that answers once, and whose frame owns a name. -/
def owningY (table : List Variable) : Session Script :=
  ⟨⟨table, [["y"]]⟩, .ofAnswers ["1"]⟩

/-- A loop that counts from an answer up, once beside a variable and once where only its name
is owned. -/
theorem counting_isolated_from_y :
    ∃ program, Program.parse "vXeulrXlti3ithXlXpplzxl" = .ok program ∧ "y" ∉ program.names ∧
      ∃ ending after otherAfter record,
        (owningY [⟨"y", .ofScalar (.int 5)⟩]).Ends Script.console (program.execute ·) ending after
          record ∧
        (owningY []).Ends Script.console (program.execute ·) ending otherAfter record ∧
        after.Beside (Store.SameBut "y") otherAfter ∧
        after.store.table.filter (·.name = "y") = [⟨"y", .ofScalar (.int 5)⟩] ∧
        otherAfter.store.table.filter (·.name = "y") = [] := by
  obtain ⟨program, parsed, passes⟩ := Program.exists_parse_of_any "vXeulrXlti3ithXlXpplzxl"
    (fun program => "y" ∉ program.names ∧
      ((owningY []).hold Script.console (program.execute 3)).1 ≠ .unfinished) (by decide +kernel)
  obtain ⟨unmentioned, finished⟩ := of_decide_eq_true passes
  have beside : (owningY [⟨"y", .ofScalar (.int 5)⟩]).Beside (Store.SameBut "y") (owningY []) :=
    ⟨⟨by decide, rfl⟩, rfl⟩
  have hidden : (owningY [⟨"y", .ofScalar (.int 5)⟩]).store.Hides "y" := by
    simp [Store.Hides, owningY]
  obtain ⟨-, diverge | ⟨ending, after, otherAfter, record, ends, otherEnds, reached, left,
      otherLeft⟩⟩ := isolated_from_unmentioned Script.console unmentioned beside hidden
  · exact absurd (diverge.2 3) finished
  · exact ⟨program, parsed, unmentioned, ending, after, otherAfter, record, ends, otherEnds,
      reached, left.entries, otherLeft.entries⟩

end Session

end Letterline
