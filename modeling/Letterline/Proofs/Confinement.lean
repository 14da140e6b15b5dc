/-
Module: Letterline.Proofs.Confinement
Purpose: What an instruction with bodies leaves of a store, on every path out of it.
Trusted boundary: none
Main exports:
  Store.Restored, Store.Nested.restored, Session.restored_of_compound
-/
import Letterline.Proofs.Nesting

namespace Letterline

/-!
A branch or a loop runs its bodies in frames of their own.  However it ends, by falling
through, by an exit or by a fault anywhere inside, these frames are closed and the ones
outside are untouched.  What its bodies declared is gone, also where the name had a
variable before; the other variables are there in their order, and a value is another one
only if it was changed.
-/

namespace Store

/-- What is left of a store after operations that declared and changed variables of some
names, all in frames that they closed. -/
structure Restored (declared changed : List String) (before after : Store) : Prop where
  /-- The frames own what they owned. -/
  frames : after.frames = before.frames
  /-- The variables that are left stand in their order. -/
  order : after.table.map Variable.name =
    (before.table.map Variable.name).filter (· ∉ declared)
  /-- Exactly the variables of declared names are gone. -/
  live : ∀ name, after.isDeclared name ↔ before.isDeclared name ∧ name ∉ declared
  /-- Without a change a value stays. -/
  kept : ∀ name, after.isDeclared name → name ∉ changed →
    after.lookup? name = before.lookup? name

variable {names : List String} {operations : List Operation} {name : String}

/-- Looking a name up shows what operations have made of its variable. -/
theorem find?_map_changedBy (table : List Variable) :
    (table.map (changedBy operations)).find? (·.name == name) =
      (table.find? (·.name == name)).map (changedBy operations) := by
  rw [List.find?_map]
  simp only [Function.comp_def, name_changedBy]

theorem Nested.restored (nested : Nested [] operations) (store : Store) :
    Restored (declaredNames operations) (changedNames operations) store
      (replay operations store) := by
  have order : (replay operations store).table.map Variable.name =
      (store.table.map Variable.name).filter (· ∉ declaredNames operations) := by
    rw [nested.replay_eq, List.map_map, ← map_name_without]
    exact List.map_congr_left fun _ _ => name_changedBy
  have live : ∀ name, (replay operations store).isDeclared name ↔
      store.isDeclared name ∧ name ∉ declaredNames operations := by
    intro name
    rw [isDeclared_iff, order, List.mem_filter, ← isDeclared_iff, decide_eq_true_eq]
  refine ⟨nested.frames store, order, live, fun name declared unchanged => ?_⟩
  have looked : (replay operations store).lookup? name =
      (store.lookup? name).map (changedBy operations) := by
    rw [nested.replay_eq, lookup?, find?_map_changedBy, without, find?_filter_name,
      if_neg ((live name).mp declared).2, lookup?]
  rw [looked]
  cases found : store.lookup? name with
  | none => rfl
  | some entry =>
      obtain rfl := name_of_lookup found
      exact congrArg some (changedBy_of_not_mem unchanged)

end Store

theorem Instruction.declaredName?_of_kind {instruction : Instruction}
    (compound : instruction.kind ≠ .declare) : instruction.declaredName? = none := by
  cases instruction with
  | declare => exact False.elim (compound rfl)
  | _ => rfl

/-- An instruction that is no declaration, such as a branch or a loop, leaks nothing,
whatever store it runs on, whatever the console answers and however it ends: the frames are
those from before, exactly the variables whose names were declared inside are gone, and of
the others exactly those can differ that were changed. -/
theorem Session.restored_of_compound {σ : Type} (console : Console σ) (session : Session σ)
    (limit : Nat) (instruction : Instruction) (compound : instruction.kind ≠ .declare) :
    Store.Restored
      (Store.declaredNames (session.performed console (instruction.trace limit)))
      (Store.changedNames (session.performed console (instruction.trace limit)))
      session.store
      (session.hold console (instruction.execute limit)).2.store := by
  obtain ⟨_, ends⟩ := session.mayEnd_performed console (instruction.trace limit)
  have nested : Store.Nested [] (session.performed console (instruction.trace limit)) :=
    Instruction.nested_of_trace (Instruction.declaredName?_of_kind compound) ends
  rw [← Instruction.execution_trace, store_hold]
  exact nested.restored session.store

/-! ### A loop that is left from inside -/

private def textValue (contents : String) : Value :=
  .ofParts [⟨.none, .literal (.string contents)⟩]

private def readY : Value :=
  .ofParts [⟨.none, .variable "y"⟩]

/-- A loop that declares `x` again in each turn, and that the second turn leaves from inside
a branch. -/
def leftInside : Instruction :=
  .whileLoop (.compare readY .notEqual (textValue "c"))
    [.declare "x" (textValue "b") ⟨0, 0⟩,
      .branch (.compare readY .equal (textValue "b")) [.exit ⟨0, 0⟩] none ⟨0, 0⟩,
      .modify "y" (.assign (textValue "b")) ⟨0, 0⟩] ⟨0, 0⟩

/-- A session in which three variables are declared. -/
def threeDeclared : Session Script :=
  ⟨⟨["x", "y", "z"].map fun name => ⟨name, .ofScalar (.string "a")⟩, [["x", "y", "z"]]⟩,
    .ofAnswers []⟩

/-- The exit leaves a table without `x`, which was declared inside, and with another value
of `y`, which was changed. -/
theorem restored_after_exit :
    leftInside.kind ≠ .declare ∧
      (threeDeclared.hold Script.console (leftInside.execute 2)).1 = .exits ∧
      (threeDeclared.hold Script.console (leftInside.execute 2)).2.store.table =
        [⟨"y", .ofScalar (.string "b")⟩, ⟨"z", .ofScalar (.string "a")⟩] ∧
      Store.declaredNames
        (threeDeclared.performed Script.console (leftInside.trace 2)) = ["x", "x"] ∧
      Store.changedNames
        (threeDeclared.performed Script.console (leftInside.trace 2)) = ["y"] ∧
      Store.Restored
        (Store.declaredNames (threeDeclared.performed Script.console (leftInside.trace 2)))
        (Store.changedNames (threeDeclared.performed Script.console (leftInside.trace 2)))
        threeDeclared.store
        (threeDeclared.hold Script.console (leftInside.execute 2)).2.store :=
  ⟨by decide, rfl, rfl, rfl, rfl,
    Session.restored_of_compound Script.console threeDeclared 2 leftInside (by decide)⟩

end Letterline
