/-
Module: Letterline.Proofs.Store
Purpose: What the operations on a store do to its names, frames and values.
Trusted boundary: none
Main exports:
  Store.isDeclared_declare, Store.isDeclared_pop, Store.mem_head_record,
  Store.lookup_set, Store.lookup_declare, Store.lookup_pop, Store.Settled
-/
import Letterline.Store

namespace Letterline.Store

/-!
Most proofs look at a store through two views: which names have a variable, and which
names the open frames own.  Every operation has one equation for each view.
-/

variable {name other : String} {value : Value} {store : Store}

/-! ### Names with a variable -/

theorem isDeclared_iff : store.isDeclared name ↔ name ∈ store.table.map Variable.name := by
  simp [isDeclared, lookup?]

theorem lookup_eq_none : store.lookup? name = none ↔ ¬ store.isDeclared name := by
  simp [isDeclared]

@[simp] theorem not_isDeclared_empty : ¬ empty.isDeclared name := by
  simp [isDeclared_iff, empty]

@[simp] theorem map_name_replace (table : List Variable) :
    (replace name value table).map Variable.name = table.map Variable.name := by
  rw [replace, List.map_map]
  apply List.map_congr_left
  intro entry _
  simp only [Function.comp_apply]
  split <;> rfl

@[simp] theorem isDeclared_declare :
    (store.declare name value).isDeclared other ↔ other = name ∨ store.isDeclared other := by
  by_cases declared : store.isDeclared name
  · have table : (store.declare name value).table = replace name value store.table :=
      if_pos declared
    have same : other = name → store.isDeclared other := fun equal => equal ▸ declared
    rw [isDeclared_iff, table, map_name_replace, ← isDeclared_iff]
    exact (or_iff_right_of_imp same).symm
  · have table : (store.declare name value).table = store.table ++ [⟨name, value⟩] :=
      if_neg declared
    simp only [isDeclared_iff, table, List.map_append, List.mem_append, List.map_cons,
      List.map_nil, List.mem_singleton]
    exact or_comm

@[simp] theorem isDeclared_set :
    (store.set name value).isDeclared other ↔ store.isDeclared other := by
  rw [isDeclared_iff, isDeclared_iff, set, map_name_replace]

@[simp] theorem isDeclared_push : store.push.isDeclared name ↔ store.isDeclared name :=
  Iff.rfl

/-- Closing a frame removes exactly its names. -/
@[simp] theorem isDeclared_pop :
    store.pop.isDeclared name ↔ store.isDeclared name ∧ name ∉ store.topNames := by
  rw [pop, topNames]
  split
  · next none => simp [none]
  · next top rest some =>
      simp only [isDeclared_iff, some, List.mem_map, List.mem_filter, decide_eq_true_eq,
        List.head?_cons, Option.getD_some]
      constructor
      · intro evidence
        rcases evidence with ⟨entry, ⟨member, outside⟩, rfl⟩
        exact ⟨⟨entry, member, rfl⟩, outside⟩
      · intro evidence
        rcases evidence with ⟨⟨entry, member, rfl⟩, outside⟩
        exact ⟨entry, ⟨member, outside⟩, rfl⟩

/-! ### Frames -/

@[simp] theorem frames_declare : (store.declare name value).frames = record name store.frames :=
  rfl

@[simp] theorem frames_set : (store.set name value).frames = store.frames :=
  rfl

@[simp] theorem frames_push : store.push.frames = [] :: store.frames :=
  rfl

@[simp] theorem frames_pop : store.pop.frames = store.frames.tail := by
  rw [pop]
  split
  · next none => simp [none]
  · next some => simp [some]

@[simp] theorem topNames_push : store.push.topNames = [] :=
  rfl

@[simp] theorem tail_record (frames : List (List String)) :
    (record name frames).tail = frames.tail := by
  cases frames <;> rfl

/-- Recording adds one name to those of the top frame. -/
@[simp] theorem mem_head_record (frames : List (List String)) :
    other ∈ (record name frames).head?.getD [] ↔
      other = name ∨ other ∈ frames.head?.getD [] := by
  cases frames with
  | nil => simp [record]
  | cons top rest =>
      by_cases member : name ∈ top
      · have same : other = name → other ∈ top := fun equal => equal ▸ member
        simpa [record, member] using same
      · simp [record, member, or_comm]

@[simp] theorem getElem?_record_zero (frames : List (List String)) :
    (record name frames)[0]?.getD [] =
      if name ∈ frames[0]?.getD [] then frames[0]?.getD [] else frames[0]?.getD [] ++ [name] := by
  cases frames <;> simp [record]

@[simp] theorem getElem?_record_succ (frames : List (List String)) (below : Nat) :
    (record name frames)[below + 1]? = frames[below + 1]? := by
  cases frames <;> rfl

theorem topNames_eq_getElem? (store : Store) : store.topNames = store.frames[0]?.getD [] := by
  rw [topNames, List.head?_eq_getElem?]

/-! ### The variable of a name -/

theorem name_of_lookup {entry : Variable} (found : store.lookup? name = some entry) :
    entry.name = name := by
  have same := List.find?_some found
  simpa using same

theorem find?_replace (table : List Variable) :
    (replace name value table).find? (·.name == other) =
      (table.find? (·.name == other)).map fun entry =>
        if entry.name = name then { entry with value := value } else entry := by
  have sameName : ((·.name == other) ∘ fun entry : Variable =>
      if entry.name = name then { entry with value := value } else entry) =
        (·.name == other) := by
    funext entry
    simp only [Function.comp_apply]
    split <;> rfl
  rw [replace, List.find?_map, sameName]

/-- A change is seen under the name that it is made under, if that has a variable. -/
theorem lookup_set :
    (store.set name value).lookup? other =
      if other = name ∧ store.isDeclared name then some ⟨name, value⟩
      else store.lookup? other := by
  have looked : (store.set name value).lookup? other = (store.lookup? other).map fun entry =>
      if entry.name = name then { entry with value := value } else entry := find?_replace _
  rw [looked]
  cases found : store.lookup? other with
  | none =>
      rw [if_neg]
      · rfl
      · rintro ⟨rfl, declared⟩
        exact lookup_eq_none.mp found declared
  | some entry =>
      obtain rfl := name_of_lookup found
      by_cases same : entry.name = name
      · subst same
        simp [isDeclared, found]
      · simp [same]

/-- A declaration is seen under its name. -/
theorem lookup_declare :
    (store.declare name value).lookup? other =
      if other = name then some ⟨name, value⟩ else store.lookup? other := by
  by_cases declared : store.isDeclared name
  · have table : (store.declare name value).table = (store.set name value).table :=
      if_pos declared
    rw [lookup?, table, ← lookup?, lookup_set]
    simp [declared]
  · have table : (store.declare name value).table = store.table ++ [⟨name, value⟩] :=
      if_neg declared
    rw [lookup?, table, List.find?_append, ← lookup?]
    by_cases same : other = name
    · subst same
      rw [lookup_eq_none.mpr declared]
      simp
    · have none : List.find? (·.name == other) [(⟨name, value⟩ : Variable)] = none := by
        simpa using Ne.symm same
      rw [none, Option.or_none, if_neg same]

@[simp] theorem lookup_push : store.push.lookup? name = store.lookup? name :=
  rfl

/-- Looking for a name where the variables of some names are left out. -/
theorem find?_filter_name (names : List String) (table : List Variable) :
    (table.filter (·.name ∉ names)).find? (·.name == name) =
      if name ∈ names then none else table.find? (·.name == name) := by
  rw [List.find?_filter]
  by_cases out : name ∈ names
  · rw [if_pos out, List.find?_eq_none]
    intro entry _
    simp only [decide_eq_true_eq, beq_iff_eq, not_and]
    rintro outside rfl
    exact outside out
  · rw [if_neg out]
    congr 1
    funext entry
    by_cases same : entry.name = name
    · simp [same, out]
    · simp [same]

/-- Closing a frame hides the variables of its names and no others. -/
theorem lookup_pop :
    store.pop.lookup? name =
      if name ∈ store.topNames then none else store.lookup? name := by
  rw [pop, topNames]
  split
  · next none => simp [none]
  · next top rest some =>
      rw [some, List.head?_cons, Option.getD_some, lookup?, find?_filter_name, lookup?]

/-! ### Values -/

/-- Every variable holds the value of a scalar. -/
def Settled (store : Store) : Prop :=
  ∀ entry ∈ store.table, ∃ scalar, entry.value = .ofScalar scalar

namespace Settled

theorem empty : Store.empty.Settled := by
  simp [Settled, Store.empty]

theorem replace (name : String) (scalar : Scalar) {table : List Variable}
    (settled : ∀ entry ∈ table, ∃ scalar, entry.value = .ofScalar scalar) :
    ∀ entry ∈ Store.replace name (.ofScalar scalar) table,
      ∃ scalar, entry.value = .ofScalar scalar := by
  intro entry member
  obtain ⟨old, oldMember, rfl⟩ := List.mem_map.mp member
  split
  · exact ⟨scalar, rfl⟩
  · exact settled old oldMember

theorem declare (settled : store.Settled) (name : String) (scalar : Scalar) :
    (store.declare name (.ofScalar scalar)).Settled := by
  intro entry member
  simp only [Store.declare] at member
  split at member
  · exact replace name scalar settled entry member
  · obtain old | new := List.mem_append.mp member
    · exact settled entry old
    · rw [List.mem_singleton] at new
      exact ⟨scalar, by rw [new]⟩

theorem set (settled : store.Settled) (name : String) (scalar : Scalar) :
    (store.set name (.ofScalar scalar)).Settled :=
  replace name scalar settled

theorem push (settled : store.Settled) : store.push.Settled :=
  settled

theorem pop (settled : store.Settled) : store.pop.Settled := by
  rw [Store.pop]
  split
  · exact settled
  · intro entry member
    exact settled entry (List.mem_filter.mp member).1

end Settled

end Letterline.Store
