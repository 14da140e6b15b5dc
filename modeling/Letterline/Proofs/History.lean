/-
Module: Letterline.Proofs.History
Purpose: Histories of operations on a store, and what of a history a store shows.
Trusted boundary: none
Main exports:
  Store.Operation, Store.replay, Store.declaredUnder, Store.LiveAfter, Store.LastWritten,
  Store.isDeclared_replay, Store.shows_history
-/
import Mathlib.Data.List.Induction
import Letterline.Proofs.Store

namespace Letterline.Store

/-!
A history says what was done to a store that was empty at first.  What the store shows
in the end is said here on the history alone: which frame a declaration was made in,
whether that frame has been closed since, and which operation gave a name its value
last.  The table and the frames of the store are not mentioned in these definitions;
that they agree with them is what the theorems say.
-/

/-! ### Operations -/

/-- What can be done to a store. -/
inductive Operation where
  | declare (name : String) (value : Value)
  /-- Changes the value of a variable, if there is one of the name. -/
  | set (name : String) (value : Value)
  | push
  | pop
deriving DecidableEq

/-- What an operation reports. -/
inductive Report where
  | nothing
  /-- Whether there was a variable to change. -/
  | changed (found : Bool)
  /-- The names of the frame that was closed. -/
  | closed (names : List String)
deriving DecidableEq

namespace Operation

/-- The store behind an operation. -/
def apply (store : Store) : Operation → Store
  | .declare name value => store.declare name value
  | .set name value => store.set name value
  | .push => store.push
  | .pop => store.pop

/-- What an operation reports of the store that it is done to. -/
def report (store : Store) : Operation → Report
  | .set name _ => .changed (store.isDeclared name)
  | .pop => .closed store.topNames
  | _ => .nothing

/-- Says whether an operation declares a variable. -/
def isDeclaration : Operation → Bool
  | .declare .. => true
  | _ => false

end Operation

/-- The store behind operations in a row. -/
def replay (operations : List Operation) (store : Store) : Store :=
  operations.foldl Operation.apply store

section Replay

variable {operations further : List Operation} {operation : Operation} {store : Store}

@[simp] theorem replay_nil : replay [] store = store :=
  rfl

@[simp] theorem replay_cons :
    replay (operation :: operations) store = replay operations (operation.apply store) :=
  rfl

theorem replay_append :
    replay (operations ++ further) store = replay further (replay operations store) :=
  List.foldl_append

theorem replay_concat :
    replay (operations ++ [operation]) store = operation.apply (replay operations store) :=
  replay_append

end Replay

/-! ### Frames of a history -/

/-- How many frames lie above a frame behind an operation in front of which `above` did;
none if the operation has closed it. -/
def Operation.above? (above : Nat) : Operation → Option Nat
  | .push => some (above + 1)
  | .pop => match above with
    | 0 => none
    | above + 1 => some above
  | _ => some above

/-- How many frames lie above the frame that is on top now once operations have been
done; none if they have closed it. -/
def framesAbove? (operations : List Operation) : Option Nat :=
  operations.foldlM Operation.above? 0

/-- The names declared in the frame that `above` others lie on at the end of a history,
in the order of the declarations and as often as they were made.  A declaration is made
in the frame that is on top behind it. -/
def declaredUnder (above : Nat) : List Operation → List String
  | [] => []
  | .declare name _ :: since =>
      if framesAbove? since = some above then name :: declaredUnder above since
      else declaredUnder above since
  | _ :: since => declaredUnder above since

section Frames

variable {history : List Operation} {operation : Operation} {above below : Nat}
  {name : String} {value : Value}

theorem framesAbove?_concat :
    framesAbove? (history ++ [operation]) =
      (framesAbove? history).bind fun above => operation.above? above := by
  simp [framesAbove?, List.foldlM_append]

/-- A declaration belongs to the frame on top. -/
theorem declaredUnder_concat_declare :
    declaredUnder above (history ++ [.declare name value]) =
      declaredUnder above history ++ if above = 0 then [name] else [] := by
  fun_induction declaredUnder above history with
  | case1 => cases above <;> simp [declaredUnder, framesAbove?]
  | case2 other _ since onTop inductionHypothesis =>
      rw [List.cons_append, declaredUnder, framesAbove?_concat, onTop]
      simp [Operation.above?, inductionHypothesis]
  | case3 other _ since elsewhere inductionHypothesis =>
      have still : framesAbove? (since ++ [.declare name value]) = framesAbove? since := by
        simp [framesAbove?_concat, Operation.above?]
      rw [List.cons_append, declaredUnder, still, if_neg elsewhere, inductionHypothesis]
  | case4 operation since noDeclaration inductionHypothesis =>
      rw [List.cons_append, declaredUnder, inductionHypothesis]
      exact noDeclaration

/-- Any other operation declares nothing, and all names that are found under `above`
frames behind it were found under as many as it says in front of it. -/
theorem declaredUnder_concat (quiet : operation.isDeclaration = false)
    (moved : ∀ before, operation.above? before = some above ↔ before = below) :
    declaredUnder above (history ++ [operation]) = declaredUnder below history := by
  fun_induction declaredUnder below history with
  | case1 => cases operation <;> first | rfl | cases quiet
  | case2 other _ since onTop inductionHypothesis =>
      rw [List.cons_append, declaredUnder, framesAbove?_concat, onTop, Option.bind_some,
        if_pos ((moved below).mpr rfl), inductionHypothesis]
  | case3 other _ since elsewhere inductionHypothesis =>
      rw [List.cons_append, declaredUnder, framesAbove?_concat, if_neg, inductionHypothesis]
      intro found
      obtain ⟨before, here, moves⟩ := Option.bind_eq_some_iff.mp found
      exact elsewhere (here.trans (congrArg some ((moved before).mp moves)))
  | case4 operation since noDeclaration inductionHypothesis =>
      rw [List.cons_append, declaredUnder, inductionHypothesis]
      exact noDeclaration

@[simp] theorem declaredUnder_concat_set :
    declaredUnder above (history ++ [.set name value]) = declaredUnder above history :=
  declaredUnder_concat rfl fun before => by simp [Operation.above?]

@[simp] theorem declaredUnder_concat_pop :
    declaredUnder above (history ++ [.pop]) = declaredUnder (above + 1) history :=
  declaredUnder_concat rfl fun before => by cases before <;> simp [Operation.above?]

@[simp] theorem declaredUnder_succ_concat_push :
    declaredUnder (above + 1) (history ++ [.push]) = declaredUnder above history :=
  declaredUnder_concat rfl fun before => by simp [Operation.above?]

/-- A frame that has just been opened owns nothing. -/
@[simp] theorem declaredUnder_zero_concat_push :
    declaredUnder 0 (history ++ [.push]) = [] := by
  fun_induction declaredUnder 0 history with
  | case1 => rfl
  | case2 => simp_all [declaredUnder, framesAbove?_concat, Operation.above?]
  | case3 other _ since elsewhere inductionHypothesis =>
      rw [List.cons_append, declaredUnder, framesAbove?_concat, if_neg, inductionHypothesis]
      cases framesAbove? since <;> simp [Operation.above?]
  | case4 => simp_all [declaredUnder]

theorem eraseDups_concat (names : List String) :
    (names ++ [name]).eraseDups =
      if name ∈ names.eraseDups then names.eraseDups else names.eraseDups ++ [name] := by
  by_cases member : name ∈ names
  · simp [List.eraseDups_append, List.removeAll, member]
  · simp [List.eraseDups_append, List.removeAll, member, List.eraseDups_cons]

/-- The frames of a store own the names that were declared in them, each once and in the
order of their first declarations. -/
theorem frames_replay (history : List Operation) : ∀ above,
    (replay history .empty).frames[above]?.getD [] = (declaredUnder above history).eraseDups := by
  induction history using List.reverseRecOn with
  | nil => intro above; rfl
  | append_singleton history operation inductionHypothesis =>
      intro above
      rw [replay_concat]
      cases operation with
      | declare name value =>
          rw [declaredUnder_concat_declare]
          cases above with
          | zero =>
              rw [if_pos rfl, eraseDups_concat, ← inductionHypothesis]
              exact getElem?_record_zero _
          | succ above =>
              rw [if_neg (Nat.succ_ne_zero above), List.append_nil, ← inductionHypothesis]
              exact congrArg (·.getD []) (getElem?_record_succ _ above)
      | set name value => rw [declaredUnder_concat_set, ← inductionHypothesis]; rfl
      | push =>
          cases above with
          | zero => rw [declaredUnder_zero_concat_push]; rfl
          | succ above => rw [declaredUnder_succ_concat_push, ← inductionHypothesis]; rfl
      | pop =>
          rw [declaredUnder_concat_pop, ← inductionHypothesis, Operation.apply, frames_pop,
            List.getElem?_tail]

theorem topNames_replay (history : List Operation) :
    (replay history .empty).topNames = (declaredUnder 0 history).eraseDups := by
  rw [topNames_eq_getElem?, frames_replay]

end Frames

/-! ### Live names -/

/-- A name is live behind a history if it has been declared, and no frame has been closed
since its last declaration in which it had been declared. -/
def LiveAfter (history : List Operation) (name : String) : Prop :=
  ∃ before value since, history = before ++ .declare name value :: since ∧
    (∀ other, .declare name other ∉ since) ∧
    ∀ between rest, since = between ++ .pop :: rest →
      name ∉ declaredUnder 0 (before ++ .declare name value :: between)

section Live

variable {history : List Operation} {operation : Operation} {name : String} {value : Value}

/-- A place in a history that has gone on is the end or a place of the history before. -/
theorem concat_eq_append_cons {before since : List Operation} {here : Operation} :
    history ++ [operation] = before ++ here :: since ↔
      (since = [] ∧ history = before ∧ operation = here) ∨
      ∃ earlier, since = earlier ++ [operation] ∧ history = before ++ here :: earlier := by
  constructor
  · intro split
    obtain rfl | ⟨earlier, last, rfl⟩ := List.eq_nil_or_concat since
    · obtain ⟨same, here⟩ := List.append_inj' split rfl
      exact Or.inl ⟨rfl, same, List.singleton_inj.mp here⟩
    · rw [List.concat_eq_append, ← List.cons_append, ← List.append_assoc] at split
      obtain ⟨same, here⟩ := List.append_inj' split rfl
      obtain rfl := List.singleton_inj.mp here
      exact Or.inr ⟨earlier, List.concat_eq_append, same⟩
  · rintro (⟨rfl, rfl, rfl⟩ | ⟨earlier, rfl, rfl⟩)
    · rfl
    · rw [List.append_assoc, List.cons_append]

theorem not_liveAfter_nil : ¬ LiveAfter [] name := by
  rintro ⟨before, value, since, split, _⟩
  simp at split

theorem liveAfter_concat_declare : LiveAfter (history ++ [.declare name value]) name :=
  ⟨history, value, [], rfl, fun _ => List.not_mem_nil, fun between rest split => by
    simp at split⟩

/-- An operation that does not declare a live name leaves it live unless it closes a
frame in which the name had been declared. -/
theorem liveAfter_concat (undeclared : ∀ value, operation ≠ .declare name value) :
    LiveAfter (history ++ [operation]) name ↔
      LiveAfter history name ∧ (operation = .pop → name ∉ declaredUnder 0 history) := by
  constructor
  · rintro ⟨before, value, since, split, last, kept⟩
    obtain ⟨_, _, here⟩ | ⟨earlier, rfl, rfl⟩ := concat_eq_append_cons.mp split
    · exact False.elim (undeclared value here)
    · refine ⟨⟨before, value, earlier, rfl, ?_, ?_⟩, ?_⟩
      · intro other member
        exact last other (List.mem_append_left _ member)
      · rintro between rest rfl
        exact kept between (rest ++ [operation]) (by simp)
      · rintro rfl
        exact kept earlier [] rfl
  · rintro ⟨⟨before, value, since, rfl, last, kept⟩, owned⟩
    refine ⟨before, value, since ++ [operation], by simp, ?_, ?_⟩
    · intro other member
      obtain old | new := List.mem_append.mp member
      · exact last other old
      · exact undeclared other (List.mem_singleton.mp new).symm
    · intro between rest split
      obtain ⟨rfl, rfl, closes⟩ | ⟨earlier, rfl, rfl⟩ := concat_eq_append_cons.mp split
      · exact owned closes
      · exact kept between earlier rfl

/-- The variables of a store are those of the names that its history leaves live. -/
theorem isDeclared_replay (history : List Operation) (name : String) :
    (replay history .empty).isDeclared name ↔ LiveAfter history name := by
  induction history using List.reverseRecOn with
  | nil => exact iff_of_false not_isDeclared_empty not_liveAfter_nil
  | append_singleton history operation inductionHypothesis =>
      rw [replay_concat]
      cases operation with
      | declare other value =>
          rw [Operation.apply, isDeclared_declare]
          by_cases same : name = other
          · subst same
            exact iff_of_true (Or.inl rfl) liveAfter_concat_declare
          · rw [liveAfter_concat (by rintro _ ⟨⟩; exact same rfl), inductionHypothesis]
            simp [same]
      | set other value =>
          rw [Operation.apply, isDeclared_set, liveAfter_concat (by nofun), inductionHypothesis]
          simp
      | push =>
          rw [Operation.apply, isDeclared_push, liveAfter_concat (by nofun),
            inductionHypothesis]
          simp
      | pop =>
          rw [Operation.apply, isDeclared_pop, liveAfter_concat (by nofun), inductionHypothesis,
            topNames_replay, List.mem_eraseDups]
          simp

end Live

/-! ### Values of live names -/

/-- An operation behind a history gives a name a value: it declares it, or it changes it
where it is live. -/
def Operation.Writes (history : List Operation) (name : String) (value : Value) :
    Operation → Prop
  | .declare target given => target = name ∧ given = value
  | .set target given => target = name ∧ given = value ∧ LiveAfter history name
  | _ => False

/-- The last operation of a history that gives a name a value gives it this one. -/
def LastWritten (history : List Operation) (name : String) (value : Value) : Prop :=
  ∃ before operation since, history = before ++ operation :: since ∧
    operation.Writes before name value ∧
    ∀ between later rest, since = between ++ later :: rest →
      ∀ other, ¬ later.Writes (before ++ operation :: between) name other

section Values

variable {history : List Operation} {operation : Operation} {name : String} {value : Value}

theorem lastWritten_concat_of_writes (writes : operation.Writes history name value) :
    LastWritten (history ++ [operation]) name value :=
  ⟨history, operation, [], rfl, writes, fun between later rest split => by simp at split⟩

theorem LastWritten.concat (last : LastWritten history name value)
    (silent : ∀ other, ¬ operation.Writes history name other) :
    LastWritten (history ++ [operation]) name value := by
  obtain ⟨before, writer, since, rfl, writes, none⟩ := last
  refine ⟨before, writer, since ++ [operation], by simp, writes, ?_⟩
  intro between later rest split
  obtain ⟨rfl, rfl, rfl⟩ | ⟨earlier, rfl, rfl⟩ := concat_eq_append_cons.mp split
  · exact silent
  · exact none between later earlier rfl

/-- A live name is found with the value that was written to it last. -/
theorem lookup_replay (history : List Operation) (name : String) :
    LiveAfter history name →
      ∃ value, LastWritten history name value ∧
        (replay history .empty).lookup? name = some ⟨name, value⟩ := by
  induction history using List.reverseRecOn with
  | nil => exact fun live => False.elim (not_liveAfter_nil live)
  | append_singleton history operation inductionHypothesis =>
      intro live
      rw [replay_concat]
      cases operation with
      | declare other value =>
          rw [Operation.apply, lookup_declare]
          by_cases same : name = other
          · subst same
            exact ⟨value, lastWritten_concat_of_writes ⟨rfl, rfl⟩, if_pos rfl⟩
          · have before := (liveAfter_concat (by rintro _ ⟨⟩; exact same rfl)).mp live
            obtain ⟨written, last, found⟩ := inductionHypothesis before.1
            exact ⟨written, last.concat fun _ writes => same writes.1.symm,
              (if_neg same).trans found⟩
      | set other value =>
          have before := (liveAfter_concat (by nofun)).mp live
          rw [Operation.apply, lookup_set]
          by_cases same : name = other
          · subst same
            exact ⟨value, lastWritten_concat_of_writes ⟨rfl, rfl, before.1⟩,
              if_pos ⟨rfl, (isDeclared_replay history name).mpr before.1⟩⟩
          · obtain ⟨written, last, found⟩ := inductionHypothesis before.1
            exact ⟨written, last.concat fun _ writes => same writes.1.symm,
              (if_neg fun both => same both.1).trans found⟩
      | push =>
          have before := (liveAfter_concat (by nofun)).mp live
          obtain ⟨written, last, found⟩ := inductionHypothesis before.1
          exact ⟨written, last.concat fun _ => id, found⟩
      | pop =>
          have before := (liveAfter_concat (by nofun)).mp live
          obtain ⟨written, last, found⟩ := inductionHypothesis before.1
          refine ⟨written, last.concat fun _ => id, ?_⟩
          rw [Operation.apply, lookup_pop, if_neg, found]
          rw [topNames_replay, List.mem_eraseDups]
          exact before.2 rfl

end Values

/-! ### The number of frames -/

/-- An operation opens a frame without being asked to: it declares where there is none. -/
def Operation.opensFrame (store : Store) (operation : Operation) : Bool :=
  operation.isDeclaration && store.depth == 0

/-- An operation closes a frame, which takes one that is open. -/
def Operation.closesFrame (store : Store) (operation : Operation) : Bool :=
  operation == .pop && store.depth != 0

/-- The operations of a history, each with the store that it is done to. -/
def moments (store : Store) : List Operation → List (Store × Operation)
  | [] => []
  | operation :: rest => (store, operation) :: moments (operation.apply store) rest

/-- How many frames the declarations of a history have opened. -/
def implicitFrames (history : List Operation) : Nat :=
  (moments .empty history).countP fun (store, operation) => operation.opensFrame store

/-- How many frames a history has closed. -/
def effectivePops (history : List Operation) : Nat :=
  (moments .empty history).countP fun (store, operation) => operation.closesFrame store

theorem moments_concat (operation : Operation) (history : List Operation) :
    ∀ store : Store, moments store (history ++ [operation]) =
      moments store history ++ [(replay history store, operation)] := by
  induction history with
  | nil => intro store; rfl
  | cons first rest inductionHypothesis =>
      intro store
      rw [List.cons_append, moments, moments, inductionHypothesis, replay_cons, List.cons_append]

theorem implicitFrames_concat (history : List Operation) (operation : Operation) :
    implicitFrames (history ++ [operation]) =
      implicitFrames history + (operation.opensFrame (replay history .empty)).toNat := by
  rw [implicitFrames, moments_concat, List.countP_append]
  cases opened : operation.opensFrame (replay history .empty) <;> simp [implicitFrames, opened]

theorem effectivePops_concat (history : List Operation) (operation : Operation) :
    effectivePops (history ++ [operation]) =
      effectivePops history + (operation.closesFrame (replay history .empty)).toNat := by
  rw [effectivePops, moments_concat, List.countP_append]
  cases closed : operation.closesFrame (replay history .empty) <;> simp [effectivePops, closed]

/-- The number of frames changes with each one that an operation opens or closes. -/
theorem depth_apply (store : Store) (operation : Operation) :
    (operation.apply store).depth + (operation.closesFrame store).toNat =
      store.depth + [operation].count .push + (operation.opensFrame store).toNat := by
  rcases store with ⟨table, frames⟩
  cases operation with
  | declare name value => cases frames <;> rfl
  | set name value => rfl
  | push => rfl
  | pop => cases frames <;> rfl

/-- Every frame that was opened, by a push or by a declaration, is open or was closed. -/
theorem depth_replay (history : List Operation) :
    (replay history .empty).depth + effectivePops history =
      history.count .push + implicitFrames history := by
  induction history using List.reverseRecOn with
  | nil => rfl
  | append_singleton history operation inductionHypothesis =>
      have step := depth_apply (replay history .empty) operation
      rw [replay_concat, effectivePops_concat, implicitFrames_concat, List.count_append]
      omega

/-- What a store shows is what its history says.  A name is live if no frame that owned it
has been closed since its last declaration, and it has the value that was written last.
A change succeeds exactly where the name is live, a frame that is closed reports its
names in the order of their first declarations, and the frames that are open are those
that were opened less those that were closed. -/
theorem shows_history (history : List Operation) :
    (∀ name, (replay history .empty).isDeclared name ↔ LiveAfter history name) ∧
    (∀ name, LiveAfter history name →
      ∃ value, LastWritten history name value ∧
        (replay history .empty).lookup? name = some ⟨name, value⟩) ∧
    (∀ name value, (Operation.set name value).report (replay history .empty) = .changed true ↔
      LiveAfter history name) ∧
    Operation.pop.report (replay history .empty) =
      .closed (declaredUnder 0 history).eraseDups ∧
    (replay history .empty).depth + effectivePops history =
      history.count .push + implicitFrames history := by
  refine ⟨isDeclared_replay history, lookup_replay history, fun name value => ?_, ?_,
    depth_replay history⟩
  · rw [Operation.report, Report.changed.injEq]
    exact isDeclared_replay history name
  · rw [Operation.report, topNames_replay]

/-- A declaration in an inner frame takes the variable of an outer one along. -/
example : (replay [.declare "x" .one, .push, .declare "x" .one, .pop] .empty).lookup? "x" =
    none := by decide

end Letterline.Store
