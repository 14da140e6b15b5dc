/-
Module: Letterline.Proofs.Nesting
Purpose: Operations that close the frames that they open, what they leave of a store, and
  that the traces of runs are made of them.
Trusted boundary: none
Main exports:
  Store.Nested, Store.Nested.frames, Store.Nested.table, Store.Nested.replay_eq,
  Instruction.nested_of_trace, Instruction.nested_of_traceAll
-/
import Letterline.Proofs.Effect
import Letterline.Proofs.Trace

namespace Letterline

/-!
Whatever a run does to a store, it closes every frame that it has opened and no other.
Of such operations the whole effect can be written down: the variables that they have
declared are gone but for those of the frame that they began in, and the others stand
where they stood, with the values that they were given last.
-/

namespace Store

/-! ### What operations declare and change -/

/-- The name that an operation declares. -/
def Operation.declared? : Operation → Option String
  | .declare name _ => some name
  | _ => none

/-- The name under which an operation changes a value. -/
def Operation.changed? : Operation → Option String
  | .set name _ => some name
  | _ => none

/-- The names that operations declare. -/
def declaredNames (operations : List Operation) : List String :=
  operations.filterMap Operation.declared?

/-- The names under which operations change a value. -/
def changedNames (operations : List Operation) : List String :=
  operations.filterMap Operation.changed?

/-- What an operation makes of a variable that it does not remove. -/
def Operation.change (entry : Variable) : Operation → Variable
  | .set name value => if entry.name = name then { entry with value := value } else entry
  | _ => entry

/-- What operations make of a variable that they do not remove. -/
def changedBy (operations : List Operation) (entry : Variable) : Variable :=
  operations.foldl Operation.change entry

/-- The variables of a table that have none of these names. -/
def without (names : List String) (table : List Variable) : List Variable :=
  table.filter (·.name ∉ names)

section Tables

variable {names others : List String} {table : List Variable} {entry : Variable}
  {operation : Operation} {operations further : List Operation} {name : String}

@[simp] theorem name_change : (operation.change entry).name = entry.name := by
  cases operation with
  | set name value => rw [Operation.change]; split <;> rfl
  | _ => rfl

theorem changedBy_append :
    changedBy (operations ++ further) entry = changedBy further (changedBy operations entry) :=
  List.foldl_append

@[simp] theorem name_changedBy : (changedBy operations entry).name = entry.name := by
  induction operations generalizing entry with
  | nil => rfl
  | cons first rest inductionHypothesis => exact inductionHypothesis.trans name_change

/-- A variable that is not changed stays as it is. -/
theorem changedBy_of_not_mem (outside : entry.name ∉ changedNames operations) :
    changedBy operations entry = entry := by
  induction operations with
  | nil => rfl
  | cons first rest inductionHypothesis =>
      have unchanged : first.change entry = entry := by
        cases first with
        | set name value =>
            refine if_neg fun same => outside ?_
            simp [changedNames, Operation.changed?, same]
        | _ => rfl
      rw [changedBy, List.foldl_cons, unchanged]
      refine inductionHypothesis fun member => outside ?_
      obtain ⟨change, changeMember, changes⟩ := List.mem_filterMap.mp member
      exact List.mem_filterMap.mpr ⟨change, List.mem_cons_of_mem _ changeMember, changes⟩

@[simp] theorem declaredNames_append :
    declaredNames (operations ++ further) = declaredNames operations ++ declaredNames further :=
  List.filterMap_append

@[simp] theorem without_nil : without [] table = table := by
  simp [without]

theorem without_without :
    without others (without names table) = without (names ++ others) table := by
  simp [without, List.filter_filter, Bool.and_comm]

theorem without_congr (same : ∀ name, name ∈ names ↔ name ∈ others) :
    without names table = without others table := by
  simp only [without, same]

theorem without_map {change : Variable → Variable}
    (keeps : ∀ entry, (change entry).name = entry.name) :
    without names (table.map change) = (without names table).map change := by
  simp only [without, List.filter_map, Function.comp_def, keeps]

/-- A declaration concerns the variable of its name only. -/
theorem without_declare {value : Value} (store : Store) (member : name ∈ names) :
    without names (store.declare name value).table = without names store.table := by
  have replaced : without names (replace name value store.table) = without names store.table := by
    rw [replace, without_map (by intro entry; split <;> rfl)]
    refine (List.map_congr_left fun entry kept => ?_).trans (List.map_id _)
    have outside : entry.name ∉ names := of_decide_eq_true (List.mem_filter.mp kept).2
    exact if_neg fun same : entry.name = _ => outside (same ▸ member)
  rw [declare]
  split
  · exact replaced
  · simp [without, member]

theorem table_pop (store : Store) : store.pop.table = without store.topNames store.table := by
  rw [pop, topNames]
  split
  · next none => simp [none]
  · next some => simp [some, without]

theorem map_name_without :
    (without names table).map Variable.name = (table.map Variable.name).filter (· ∉ names) := by
  simp only [without, List.filter_map, Function.comp_def]

end Tables

/-! ### Nested operations -/

/-- Operations that close the frames that they open and no other, and that give variables
the values of scalars.  Where they are in no frame of their own they declare `names`. -/
inductive Nested : List String → List Operation → Prop where
  | nil : Nested [] []
  | declare {names : List String} {rest : List Operation} (name : String) (scalar : Scalar)
      (further : Nested names rest) :
      Nested (name :: names) (.declare name (.ofScalar scalar) :: rest)
  | set {names : List String} {rest : List Operation} (name : String) (scalar : Scalar)
      (further : Nested names rest) :
      Nested names (.set name (.ofScalar scalar) :: rest)
  | frame {inner names : List String} {body rest : List Operation}
      (inside : Nested inner body) (further : Nested names rest) :
      Nested names (.push :: (body ++ .pop :: rest))

namespace Nested

variable {names others inner : List String} {operations further body : List Operation}

theorem append (first : Nested names operations) (second : Nested others further) :
    Nested (names ++ others) (operations ++ further) := by
  induction first with
  | nil => exact second
  | declare name scalar _ inductionHypothesis => exact .declare name scalar inductionHypothesis
  | set name scalar _ inductionHypothesis => exact .set name scalar inductionHypothesis
  | frame inside _ _ inductionHypothesis =>
      rw [List.cons_append, List.append_assoc, List.cons_append]
      exact .frame inside inductionHypothesis

theorem inFrame (inside : Nested inner body) : Nested [] (.push :: (body ++ [.pop])) :=
  .frame inside .nil

end Nested

/-! ### What nested operations leave of a store -/

/-- Records names in the top frame, one after the other. -/
def recordAll (names : List String) (frames : List (List String)) : List (List String) :=
  names.foldl (fun frames name => record name frames) frames

theorem tail_recordAll (names : List String) :
    ∀ frames, (recordAll names frames).tail = frames.tail := by
  induction names with
  | nil => exact fun _ => rfl
  | cons name rest inductionHypothesis =>
      exact fun frames => (inductionHypothesis _).trans (tail_record frames)

theorem mem_head_recordAll {name : String} (names : List String) :
    ∀ frames, name ∈ (recordAll names frames).head?.getD [] ↔
      name ∈ names ∨ name ∈ frames.head?.getD [] := by
  induction names with
  | nil => simp [recordAll]
  | cons first rest inductionHypothesis =>
      intro frames
      refine (inductionHypothesis _).trans ?_
      rw [mem_head_record, List.mem_cons]
      exact or_left_comm.trans or_assoc.symm

/-- Recording opens a frame at most where there is none. -/
theorem length_recordAll (names : List String) :
    ∀ frames, (recordAll names frames).length ≤ max 1 frames.length := by
  induction names with
  | nil => exact fun frames => Nat.le_max_right 1 frames.length
  | cons first rest inductionHypothesis =>
      intro frames
      have step : max 1 (record first frames).length = max 1 frames.length := by
        cases frames <;> simp [record]
      exact step ▸ inductionHypothesis (record first frames)

namespace Nested

variable {names inner : List String} {operations body : List Operation}

/-- The frames stay, and the top one gets the names that are declared in it. -/
theorem frames (nested : Nested names operations) :
    ∀ store, (replay operations store).frames = recordAll names store.frames := by
  induction nested with
  | nil => exact fun _ => rfl
  | declare name scalar _ inductionHypothesis => exact fun store => inductionHypothesis _
  | set name scalar _ inductionHypothesis => exact fun store => inductionHypothesis _
  | @frame inner names body rest _ _ insideHypothesis furtherHypothesis =>
      intro store
      have closed : (replay body store.push).pop.frames = store.frames := by
        rw [frames_pop, insideHypothesis, tail_recordAll]
        rfl
      rw [replay_cons, replay_append, replay_cons, furtherHypothesis]
      exact congrArg (recordAll names) closed

/-- The frame of nested operations owns the names that they declare in it. -/
theorem mem_topNames (nested : Nested inner body) (store : Store) (name : String) :
    name ∈ (replay body store.push).topNames ↔ name ∈ inner := by
  rw [topNames, nested.frames, mem_head_recordAll]
  simp

/-- Apart from the names that were declared last, in the frame that is still open, the
table keeps its order, loses what was declared and holds what was changed. -/
theorem table (nested : Nested names operations) :
    ∀ store : Store, without names (replay operations store).table =
      (without (declaredNames operations) store.table).map (changedBy operations) := by
  induction nested with
  | nil =>
      intro store
      have unchanged : changedBy [] = id := rfl
      rw [unchanged, List.map_id]
      rfl
  | @declare names rest name scalar _ inductionHypothesis =>
      intro store
      calc without (name :: names) (replay rest (store.declare name (.ofScalar scalar))).table
        _ = without [name]
              (without names (replay rest (store.declare name (.ofScalar scalar))).table) := by
            rw [without_without]
            exact without_congr fun _ => by simp [or_comm]
        _ = (without (declaredNames rest ++ [name])
              (store.declare name (.ofScalar scalar)).table).map (changedBy rest) := by
            rw [inductionHypothesis, without_map fun _ => name_changedBy, without_without]
        _ = (without (name :: declaredNames rest) store.table).map (changedBy rest) := by
            rw [without_declare store (by simp)]
            exact congrArg _ (without_congr fun _ => by simp [or_comm])
  | @set names rest name scalar _ inductionHypothesis =>
      intro store
      have replaced : (store.set name (.ofScalar scalar)).table =
          store.table.map fun entry => (Operation.set name (.ofScalar scalar)).change entry :=
        rfl
      rw [replay_cons, Operation.apply, inductionHypothesis, replaced,
        without_map fun _ => name_change, List.map_map]
      rfl
  | @frame inner names body rest inside _ insideHypothesis furtherHypothesis =>
      intro store
      have closed : (replay body store.push).pop.table =
          (without (declaredNames body) store.table).map (changedBy body) := by
        rw [table_pop, without_congr (inside.mem_topNames store), insideHypothesis]
        rfl
      rw [replay_cons, replay_append, replay_cons, furtherHypothesis]
      change (without _ (replay body store.push).pop.table).map _ = _
      rw [closed, without_map fun _ => name_changedBy, without_without, List.map_map]
      have declared : declaredNames (.push :: (body ++ .pop :: rest)) =
          declaredNames body ++ declaredNames rest :=
        declaredNames_append
      rw [declared]
      refine List.map_congr_left fun entry _ => ?_
      have parts : changedBy (body ++ .pop :: rest) entry =
          changedBy (.pop :: rest) (changedBy body entry) := changedBy_append
      exact parts.symm

/-- Operations that declare nothing outside of their own frames leave the frames as they
are. -/
theorem replay_eq (nested : Nested [] operations) (store : Store) :
    replay operations store =
      ⟨(without (declaredNames operations) store.table).map (changedBy operations),
        store.frames⟩ := by
  have table := nested.table store
  have frames := nested.frames store
  rw [without_nil] at table
  exact congr (congrArg Store.mk table) frames

end Nested
end Store

/-! ### Traces are nested -/

namespace Tracing

open Store

variable {α : Type} {limit : Nat} {body first second : Tracing} {store : Store}
  {ending : Ending} {operations : List Operation}

theorem exists_of_given {evaluation : Store → Evaluation α} {body : α → Tracing}
    (ends : (given evaluation body store).MayEnd (ending, operations)) :
    (∃ result, (evaluation store).run.MayEnd (.ok result) ∧
      (body result store).MayEnd (ending, operations)) ∨ operations = [] := by
  simp only [given, Dialogue.bind_eq, Dialogue.mayEnd_bind] at ends
  obtain ⟨result | result, evaluated, rest⟩ := ends
  · cases rest
    exact Or.inr rfl
  · exact Or.inl ⟨result, evaluated, rest⟩

theorem nested_of_inFrame
    (nested : ∀ {store ending operations}, (body store).MayEnd (ending, operations) →
      ∃ names, Nested names operations)
    (ends : (inFrame body store).MayEnd (ending, operations)) : Nested [] operations := by
  simp only [inFrame, Dialogue.bind_eq, Dialogue.mayEnd_bind] at ends
  obtain ⟨⟨_, performed⟩, bodyEnds, rest⟩ := ends
  cases rest
  obtain ⟨names, inside⟩ := nested bodyEnds
  exact inside.inFrame

theorem nested_of_andThen
    (firstNested : ∀ {store ending operations}, (first store).MayEnd (ending, operations) →
      ∃ names, Nested names operations)
    (secondNested : ∀ {store ending operations}, (second store).MayEnd (ending, operations) →
      ∃ names, Nested names operations)
    (ends : (andThen first second store).MayEnd (ending, operations)) :
    ∃ names, Nested names operations := by
  simp only [andThen, Dialogue.bind_eq, Dialogue.mayEnd_bind] at ends
  obtain ⟨⟨reached, performed⟩, firstEnds, rest⟩ := ends
  obtain ⟨names, firstPart⟩ := firstNested firstEnds
  cases reached with
  | proceeds =>
      obtain ⟨⟨_, further⟩, secondEnds, rest⟩ := Dialogue.mayEnd_bind.mp rest
      cases rest
      obtain ⟨others, secondPart⟩ := secondNested secondEnds
      exact ⟨names ++ others, firstPart.append secondPart⟩
  | _ => cases rest; exact ⟨names, firstPart⟩

/-- The operations of a loop once a turn has been taken. -/
def done : Dialogue.Turn (List Operation) (Ending × List Operation) → List Operation
  | .again operations => operations
  | .stop (_, operations) => operations

/-- A turn does what its body does. -/
theorem nested_of_turn {condition : Store → Evaluation Bool} {soFar : List Operation}
    {taken : Dialogue.Turn (List Operation) (Ending × List Operation)}
    (nested : ∀ {store ending operations}, (body store).MayEnd (ending, operations) →
      Nested [] operations)
    (before : Nested [] soFar) (ends : (turn condition body store soFar).MayEnd taken) :
    Nested [] (done taken) := by
  simp only [turn, Dialogue.bind_eq, Dialogue.mayEnd_bind] at ends
  obtain ⟨error | truth, _, rest⟩ := ends
  · cases rest
    exact before
  · cases truth with
    | false =>
        cases rest
        exact before
    | true =>
        obtain ⟨⟨reached, performed⟩, bodyEnds, rest⟩ := Dialogue.mayEnd_bind.mp rest
        have behind : Nested [] (soFar ++ performed) := before.append (nested bodyEnds)
        cases reached <;> cases rest <;> exact behind

/-- What a loop does is what its turns do, one after the other. -/
theorem nested_of_repeatWhile {condition : Store → Evaluation Bool}
    (nested : ∀ {store ending operations}, (body store).MayEnd (ending, operations) →
      Nested [] operations)
    (ends : (repeatWhile limit condition body store).MayEnd (ending, operations)) :
    Nested [] operations := by
  obtain ⟨last, before, stop | spent⟩ := Dialogue.MayEnd.of_iterate
    (fun _ _ before again => nested_of_turn nested before again) .nil ends
  · exact nested_of_turn nested before stop
  · cases spent
    exact before

end Tracing

namespace Instruction

open Store Tracing

variable {limit : Nat}

mutual

/-- The trace of an instruction that is no declaration declares nothing outside of its own
frames. -/
theorem nested_of_trace : ∀ {instruction : Instruction} {store : Store} {ending : Ending}
    {operations : List Operation}, instruction.declaredName? = none →
      (trace limit instruction store).MayEnd (ending, operations) → Nested [] operations
  | .exit _, _, _, _, _, ends => by
      cases ends
      exact .nil
  | .print value _, _, _, _, _, ends => by
      rw [trace] at ends
      obtain ⟨scalar, _, printed⟩ | rfl := exists_of_given ends
      · simp only [Tracing.print, Dialogue.bind_eq, Dialogue.mayEnd_bind] at printed
        obtain ⟨_ | _, _, rest⟩ := printed <;> cases rest <;> exact .nil
      · exact .nil
  | .declare .., _, _, _, direct, _ => by cases direct
  | .modify name modification _, _, _, _, _, ends => by
      rw [trace] at ends
      obtain ⟨value, evaluated, changed⟩ | rfl := exists_of_given ends
      · obtain ⟨scalar, rfl⟩ := Modification.newValue_settled evaluated
        cases changed
        exact .set name scalar .nil
      · exact .nil
  | .branch condition thenBody none _, _, _, _, _, ends => by
      rw [trace] at ends
      refine nested_of_inFrame (fun bodyEnds => ?_) ends
      obtain ⟨truth, _, taken⟩ | rfl := exists_of_given bodyEnds
      · cases truth with
        | true => exact nested_of_traceAll taken
        | false => cases taken; exact ⟨_, .nil⟩
      · exact ⟨_, .nil⟩
  | .branch condition thenBody (some elseBody) _, _, _, _, _, ends => by
      rw [trace] at ends
      refine nested_of_inFrame (fun bodyEnds => ?_) ends
      obtain ⟨truth, _, taken⟩ | rfl := exists_of_given bodyEnds
      · cases truth with
        | true => exact nested_of_traceAll taken
        | false => exact nested_of_traceAll taken
      · exact ⟨_, .nil⟩
  | .whileLoop condition body _, _, _, _, _, ends => by
      rw [trace] at ends
      exact nested_of_repeatWhile (nested_of_inFrame nested_of_traceAll) ends
  | .forLoop init condition update body _, _, _, _, _, ends => by
      rw [trace] at ends
      exact nested_of_inFrame (nested_of_andThen nested_of_traceAll fun loopEnds =>
        ⟨_, nested_of_repeatWhile
          (nested_of_inFrame (nested_of_andThen nested_of_traceAll nested_of_traceAll))
          loopEnds⟩) ends

/-- The trace of a body declares the names that it declares itself in the frame that the
body runs in. -/
theorem nested_of_traceAll : ∀ {body : List Instruction} {store : Store} {ending : Ending}
    {operations : List Operation}, (traceAll limit body store).MayEnd (ending, operations) →
      ∃ names, Nested names operations
  | [], _, _, _, ends => by
      cases ends
      exact ⟨_, .nil⟩
  | instruction :: rest, _, _, _, ends => by
      rw [traceAll] at ends
      refine nested_of_andThen (fun headEnds => ?_) nested_of_traceAll ends
      cases direct : instruction.declaredName? with
      | none => exact ⟨_, nested_of_trace direct headEnds⟩
      | some name =>
          obtain ⟨value, span, rfl⟩ := exists_of_declaredName direct
          rw [trace] at headEnds
          obtain ⟨scalar, _, declared⟩ | rfl := exists_of_given headEnds
          · cases declared
            exact ⟨_, .declare name scalar .nil⟩
          · exact ⟨_, .nil⟩

end

end Instruction

end Letterline
